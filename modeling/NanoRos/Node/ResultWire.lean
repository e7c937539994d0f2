import NanoRos.Node.GoalAcceptance
import NanoRos.Serdes.Misread

/-! A result on its way from `complete_goal` to a client. -/

namespace NanoRos

open LittleEndian Memory

/-- A message type as codegen emits it, which makes narrow strings out of wide ones. -/
structure MessageType where
  nested : NestedType
  narrow : plainFields nested.fields = true

def MessageType.ty (m : MessageType) : FieldType := .nested m.nested

theorem MessageType.plain (m : MessageType) : plainType m.ty = true := by
  rcases m with ⟨⟨name, fields⟩, narrow⟩
  exact narrow

namespace GoalStatusCode

def isTerminal : GoalStatusCode → Bool
  | .succeeded | .canceled | .aborted => true
  | _ => false

def fromI8 (value : Int8) : Option GoalStatusCode :=
  if value = 0 then some .unknown
  else if value = 1 then some .accepted
  else if value = 2 then some .executing
  else if value = 3 then some .canceling
  else if value = 4 then some .succeeded
  else if value = 5 then some .canceled
  else if value = 6 then some .aborted
  else none

theorem fromI8_toI8 (status : GoalStatusCode) : fromI8 status.toI8 = some status := by
  cases status <;> rfl

end GoalStatusCode

/-- The promise path: the result is read behind the status, from the same reader. -/
def parseResultResponse (ty : FieldType) (data : List UInt8) :
    Except NodeError (GoalStatusCode × Value) := do
  let reader ← (CdrReader.newWithHeader data).mapError fun _ => NodeError.serviceRequestFailed
  let (statusCode, reader) ← reader.readI8.mapError fun _ => NodeError.serviceRequestFailed
  let status := (GoalStatusCode.fromI8 statusCode).getD .unknown
  let (result, _) ← (deserialize ty reader).mapError fun _ => NodeError.serviceRequestFailed
  return (status, result)

/-- Anything but a terminal status reads as unknown. -/
def resultStatus (reply : List UInt8) : Option GoalStatusCode :=
  if reply.length < getResultPayloadOffset then none
  else
    let code := reply.getD replyStatusOffset 0
    some (if code = 4 then .succeeded else if code = 5 then .canceled
      else if code = 6 then .aborted else .unknown)

def resultFields (reply : List UInt8) : Option (List UInt8) :=
  if reply.length < getResultPayloadOffset then none else some (reply.drop getResultPayloadOffset)

/-- The field bytes behind the header of the message they came in, in a buffer of `cap` bytes. -/
def readActionField (ty : FieldType) (cap : Nat) (topEncap raw : List UInt8) : Option Value :=
  if topEncap.length < 4 ∨ raw.length + 4 > cap then none
  else
    let buf := overwrite (overwrite (List.replicate cap 0) 0 (topEncap.take 4)) 4 raw
    match CdrReader.newWithHeader (buf.take (4 + raw.length)) with
    | .error _ => none
    | .ok reader =>
      match deserialize ty reader with
      | .error _ => none
      | .ok (value, _) => some value

/-- The callback path: what `on_result` is called with, if it is called. -/
def dispatchResult (ty : FieldType) (resultBuf : Nat) (reply : List UInt8) :
    Option (GoalStatusCode × Value) := do
  let status ← resultStatus reply
  let fields ← resultFields reply
  let res ← readActionField ty resultBuf reply fields
  return (status, res)

theorem newWithHeader_cdrLe (rest : List UInt8) :
    CdrReader.newWithHeader (cdrLeHeader ++ rest) = .ok ⟨cdrLeHeader ++ rest, 4, 4, .xcdr1⟩ :=
  @newWithHeader_messageHeader .xcdr1 rest

section Write

variable {ty : FieldType} {v : Value} (conforms : Conforms ty v) (fits : LengthsFit ty v)

include conforms fits

theorem serialize_new {buf : List UInt8} (room : (typedWire ty v 0).length ≤ buf.length) :
    ∃ w, serialize ty v (CdrWriter.new buf) = .ok w ∧ w.buf.take w.position = typedWire ty v 0 := by
  have ready : (CdrWriter.new buf).Ready := ⟨Nat.le_refl _, Nat.zero_le _, rfl⟩
  have written := serialize_eq_emit ty v (CdrWriter.new buf) conforms fits ready rfl
  have fit : (CdrWriter.new buf).pos + (typedWire ty v 0).length ≤ (CdrWriter.new buf).buf.length := by
    rw [CdrWriter.new, Nat.zero_add]
    exact room
  refine ⟨(CdrWriter.new buf).after (typedWire ty v 0), ?_, ?_⟩
  · rw [written]
    exact CdrWriter.put_eq_ok _ ready _ fit
  · have whole := take_overwrite buf 0 (typedWire ty v 0) (Nat.zero_le _)
    rwa [List.take_zero, List.nil_append] at whole

theorem deserialize_header :
    deserialize ty ⟨cdrLeHeader ++ typedWire ty v 0, 4, 4, .xcdr1⟩ =
      .ok (v, CdrReader.skip ⟨cdrLeHeader ++ typedWire ty v 0, 4, 4, .xcdr1⟩ (typedWire ty v)) := by
  apply deserialize_of_holds ty v _ conforms fits _ rfl
  · exact @holds_messageBody .xcdr1 (typedWire ty v)
  · exact @ready_message .xcdr1 (typedWire ty v 0)

theorem readActionField_eq {cap : Nat} (room : (typedWire ty v 0).length + 4 ≤ cap)
    (rest : List UInt8) : readActionField ty cap (cdrLeHeader ++ rest) (typedWire ty v 0) = some v := by
  have long : ¬ ((cdrLeHeader ++ rest).length < 4 ∨ (typedWire ty v 0).length + 4 > cap) := by
    rw [List.length_append]
    rintro (short | large)
    · exact absurd short (Nat.not_lt.mpr (Nat.le_add_right 4 _))
    · omega
  have front : (cdrLeHeader ++ rest).take 4 = cdrLeHeader := rfl
  have joined : overwrite (overwrite (List.replicate cap 0) 0 cdrLeHeader) 4 (typedWire ty v 0) =
      overwrite (List.replicate cap 0) 0 (cdrLeHeader ++ typedWire ty v 0) :=
    overwrite_append _ 0 cdrLeHeader (typedWire ty v 0)
      (by rw [List.length_replicate, Nat.zero_add]; exact Nat.le_trans (Nat.le_add_left 4 _) room)
  have whole := take_overwrite (List.replicate cap 0) 0 (cdrLeHeader ++ typedWire ty v 0)
    (Nat.zero_le _)
  rw [Nat.zero_add, List.length_append, List.take_zero, List.nil_append] at whole
  rw [readActionField, if_neg long, front]
  dsimp only
  rw [joined]
  have size : cdrLeHeader.length = 4 := rfl
  rw [size] at whole
  rw [whole, newWithHeader_cdrLe]
  dsimp only
  rw [deserialize_header conforms fits]

end Write

section Server

variable {γ : Type} {goalBuf resultBuf maxGoals : Nat}

/-- The typed copies of the results, which nothing reads, are not part of the server here. -/
def ActionServer.completeGoal (ty : FieldType) (server : ActionServer γ goalBuf resultBuf maxGoals)
    (goalId : GoalUuid) (status : GoalStatusCode) (result : Value) :
    Except NodeError Unit × ActionServer γ goalBuf resultBuf maxGoals :=
  let serialized := serialize ty result (CdrWriter.new (List.replicate resultBuf 0))
  let typedGoals :=
    match server.core.activeGoals.items.findIdx? fun goal => goal.goalId = goalId with
    | some pos => server.typedGoals.swapRemove pos
    | none => server.typedGoals
  match serialized with
  | .ok writer =>
    let stored := server.core.completeGoalRaw goalId status (writer.buf.take writer.position)
    (stored.1, ⟨stored.2, typedGoals⟩)
  | .error _ => (.error .serialization, ⟨(server.core.completeGoalRaw goalId status []).2, typedGoals⟩)

/-- `reply` is what whoever asks for the result of the goal is sent: those who asked before the
goal ended, and one who asks afterwards. -/
structure Replies (ty : FieldType) (server : ActionServer γ goalBuf resultBuf maxGoals)
    (goalId : GoalUuid) (status : GoalStatusCode) (result : Value) (reply : List UInt8) : Prop where
  stored : (server.completeGoal ty goalId status result).1 = .ok ()
  waiters : ∀ p ∈ server.core.pendingGetResults.items, p.goalId = goalId →
    (p.sequenceNumber, reply) ∈
      (server.completeGoal ty goalId status result).2.core.getResultServer.sent
  later : ∀ seq defaultResultCdr,
    ((server.completeGoal ty goalId status result).2.core.answerGetResult goalId seq
        defaultResultCdr).2.getResultServer.sent =
      (server.completeGoal ty goalId status result).2.core.getResultServer.sent ++ [(seq, reply)]

theorem Replies.unique {ty : FieldType} {server : ActionServer γ goalBuf resultBuf maxGoals}
    {goalId : GoalUuid} {status : GoalStatusCode} {result : Value} {first second : List UInt8}
    (one : Replies ty server goalId status result first)
    (other : Replies ty server goalId status result second) : first = second := by
  have same := (one.later 0 []).symm.trans (other.later 0 [])
  rw [List.append_cancel_left_eq, List.singleton_inj, Prod.mk.injEq] at same
  exact same.2

theorem ActionServerCore.answerGetResult_retained
    {core : ActionServerCore goalBuf resultBuf maxGoals} {history : List Completion}
    (holds : core.Holds history) (listening : core.Listening) {c : Completion}
    (retained : c.goalId ∈ core.retained) (latest : mostRecent history c.goalId = some c)
    (fits : getResultPayloadOffset + c.resultCdr.length ≤ goalBuf) (seq : Int64)
    (defaultResultCdr : List UInt8) :
    (core.answerGetResult c.goalId seq defaultResultCdr).2.getResultServer.sent =
      core.getResultServer.sent ++ [(seq, getResultReply c.status c.resultCdr)] := by
  rw [answerGetResult]
  cases found : core.completedResults.items.find?
      (fun entry => decide (entry.goalId = c.goalId)) with
  | none =>
    rcases List.mem_map.mp retained with ⟨entry, member, own⟩
    have missed := List.find?_eq_none.mp found entry member
    simp [own] at missed
  | some entry =>
    have member := List.mem_of_find?_eq_some found
    have own : entry.goalId = c.goalId := by simpa using List.find?_some found
    have held := holds.latest entry member
    rw [own, latest, Option.some.injEq] at held
    have status : c.status = entry.status := congrArg Completion.status held
    have bytes : c.resultCdr = slice core.resultSlab entry.offset entry.len :=
      congrArg Completion.resultCdr held
    have inside : entry.offset + entry.len ≤ core.resultSlab.length := by
      have stop := holds.inside entry member
      have room := holds.room
      rw [holds.sized]
      omega
    have length : c.resultCdr.length = entry.len := by
      rw [bytes]
      exact length_slice _ _ _ inside
    rcases replyGetResult_sends listening seq c.status c.resultCdr with
      ⟨result, core', replied, _, _, _, sent, ok⟩
    rw [if_pos fits] at sent
    rw [ok.mpr fits, length, bytes, status] at replied
    dsimp only
    rw [replyGetResultFromSlab, replied]
    exact sent

theorem completeGoal_replies {ty : FieldType} {server : ActionServer γ goalBuf resultBuf maxGoals}
    {history : List Completion} (holds : server.core.Holds history)
    (listening : server.core.Listening) (positive : 1 ≤ maxGoals) (goalId : GoalUuid)
    (status : GoalStatusCode) {result : Value} (conforms : Conforms ty result)
    (lengths : LengthsFit ty result)
    (roomForReply : getResultPayloadOffset + (typedWire ty result 0).length ≤ goalBuf)
    (roomForResult : (typedWire ty result 0).length ≤ resultBuf) :
    Replies ty server goalId status result (getResultReply status (typedWire ty result 0)) := by
  have room : (typedWire ty result 0).length ≤ (List.replicate resultBuf (0 : UInt8)).length := by
    rw [List.length_replicate]
    exact roomForResult
  rcases serialize_new conforms lengths room with ⟨w, written, bytes⟩
  let c : Completion := ⟨goalId, status, typedWire ty result 0⟩
  have core : (server.completeGoal ty goalId status result).2.core =
      (server.core.completeGoalRaw c.goalId c.status c.resultCdr).2 := by
    simp only [ActionServer.completeGoal, written, bytes, c]
  have outcome : (server.completeGoal ty goalId status result).1 =
      (server.core.completeGoalRaw c.goalId c.status c.resultCdr).1 := by
    simp only [ActionServer.completeGoal, written, bytes, c]
  rcases ActionServerCore.completeGoalRaw_retains positive holds c roomForResult with
    ⟨stored, retained⟩
  rcases ActionServerCore.completeGoalRaw_answers holds listening c with
    ⟨listening', _, sent⟩
  constructor
  · rw [outcome]
    exact stored
  · intro p member own
    rw [core]
    apply sent.mem_iff.mpr
    refine List.mem_append_right _ (List.mem_flatMap.mpr ⟨p, ?_, ?_⟩)
    · exact List.mem_filter.mpr ⟨member, decide_eq_true own⟩
    · rw [ActionServerCore.repliesTo, if_pos roomForReply]
      exact List.mem_singleton.mpr rfl
  · intro seq defaultResultCdr
    rw [core]
    apply ActionServerCore.answerGetResult_retained
      (ActionServerCore.completeGoalRaw_holds holds c) listening' retained _ roomForReply
    rw [mostRecent_append, if_pos rfl]

end Server

section Decode

variable {ty : FieldType} {v : Value} {status : GoalStatusCode}

/-- The reader of the promise path behind the status: three zeros of padding lie ahead. -/
def behindStatus (status : GoalStatusCode) (bytes : List UInt8) : CdrReader :=
  ⟨getResultReply status bytes, 5, 4, .xcdr1⟩

theorem behindStatus_behind (status : GoalStatusCode) (wire : Wire UInt8) :
    Behind (behindStatus status (wire 0)) (.lagging 0 1) 0 wire where
  ready := by
    refine ⟨show 4 ≤ 5 by decide, ?_⟩
    change 5 ≤ (getResultHeader status ++ wire 0).length
    rw [List.length_append, length_getResultHeader, getResultPayloadOffset]
    omega
  plain := rfl
  between := ⟨rfl, rfl, show 1 < 4 by decide⟩
  ahead := List.prefix_refl _

theorem parseResultResponse_reply (bytes : List UInt8) :
    parseResultResponse ty (getResultReply status bytes) =
      ((deserialize ty (behindStatus status bytes)).mapError
        fun _ => NodeError.serviceRequestFailed) >>= fun read => pure (status, read.1) := by
  have opened : CdrReader.newWithHeader (getResultReply status bytes) =
      .ok ⟨getResultReply status bytes, 4, 4, .xcdr1⟩ := newWithHeader_cdrLe _
  have ready := @ready_message .xcdr1 ([status.toI8.toUInt8] ++ [0, 0, 0] ++ bytes)
  have first : CdrReader.readI8 ⟨getResultReply status bytes, 4, 4, .xcdr1⟩ =
      .ok (status.toI8, behindStatus status bytes) :=
    CdrReader.readI8_of_holds _ ready status.toI8 ⟨[0, 0, 0] ++ bytes, rfl⟩
  simp only [parseResultResponse, opened, first, Except.mapError, ok_bind,
    GoalStatusCode.fromI8_toI8, Option.getD_some]

theorem parseResultResponse_of_sync (conforms : Conforms ty v) (lengths : LengthsFit ty v)
    (found : sync ty (.lagging 0 1) ≠ .lost) :
    parseResultResponse ty (getResultReply status (typedWire ty v 0)) = .ok (status, v) := by
  have behind := behindStatus_behind status (typedWire ty v)
  have holds := behind.holds (follows_of_sync ty v _ conforms found)
  rw [parseResultResponse_reply,
    deserialize_of_holds ty v _ conforms lengths behind.ready behind.plain holds]
  rfl

theorem parseResultResponse_of_lost (plain : plainType ty = true)
    (lost : sync ty (.lagging 0 1) = .lost) :
    parseResultResponse ty (getResultReply status (typedWire ty (sample true ty) 0)) ≠
      .ok (status, sample true ty) := by
  have behind := behindStatus_behind status (typedWire ty (sample true ty))
  rw [parseResultResponse_reply]
  intro done
  rcases bind_eq_ok.mp done with ⟨⟨result, out⟩, read, last⟩
  cases decoded : deserialize ty (behindStatus status (typedWire ty (sample true ty) 0)) with
  | error e =>
    rw [decoded] at read
    cases read
  | ok value =>
    rw [decoded] at read
    cases read
    simp only [pure_eq_ok, Except.ok.injEq, Prod.mk.injEq] at last
    rw [last.2] at decoded
    exact misreads ty _ 0 _ out plain lost behind decoded

theorem dispatchResult_reply (conforms : Conforms ty v) (lengths : LengthsFit ty v)
    (terminal : status.isTerminal = true) {clientBuf : Nat}
    (room : getResultPayloadOffset + (typedWire ty v 0).length ≤ clientBuf) :
    dispatchResult ty clientBuf (getResultReply status (typedWire ty v 0)) = some (status, v) := by
  have long : ¬ (getResultReply status (typedWire ty v 0)).length < getResultPayloadOffset := by
    rw [getResultReply, List.length_append, length_getResultHeader]
    omega
  have code : resultStatus (getResultReply status (typedWire ty v 0)) = some status := by
    rw [resultStatus, if_neg long]
    cases status with
    | unknown | accepted | executing | canceling => cases terminal
    | succeeded | canceled | aborted => rfl
  have fields : resultFields (getResultReply status (typedWire ty v 0)) =
      some (typedWire ty v 0) := if_neg long
  rw [getResultPayloadOffset] at room
  have field : readActionField ty clientBuf (getResultReply status (typedWire ty v 0))
      (typedWire ty v 0) = some v := readActionField_eq conforms lengths (by omega) _
  rw [dispatchResult, code, fields]
  simp only [Option.bind_eq_bind, Option.bind_some, field]
  rfl

end Decode

/-- A server that is about to complete a goal with this result, with room for it on the way. What
`Holds` says is kept by every operation of the server. -/
structure Completes {γ : Type} {goalBuf resultBuf maxGoals : Nat} (ty : FieldType)
    (server : ActionServer γ goalBuf resultBuf maxGoals) (result : Value) : Prop where
  holds : ∃ history, server.core.Holds history
  listening : server.core.Listening
  positive : 1 ≤ maxGoals
  conforms : Conforms ty result
  lengths : LengthsFit ty result
  roomForReply : getResultPayloadOffset + (typedWire ty result 0).length ≤ goalBuf
  roomForResult : (typedWire ty result 0).length ≤ resultBuf

variable {ty : FieldType} {result : Value} {m : MessageType}

theorem Completes.replies {γ : Type} {goalBuf resultBuf maxGoals : Nat}
    {server : ActionServer γ goalBuf resultBuf maxGoals} (completes : Completes ty server result)
    (goalId : GoalUuid) (status : GoalStatusCode) :
    Replies ty server goalId status result (getResultReply status (typedWire ty result 0)) := by
  rcases completes.holds with ⟨history, holds⟩
  exact completeGoal_replies holds completes.listening completes.positive goalId status
    completes.conforms completes.lengths completes.roomForReply completes.roomForResult

def freshServer (goalBuf resultBuf maxGoals : Nat) : ActionServer Unit goalBuf resultBuf maxGoals :=
  ⟨.fromChannels ⟨fun _ => true, 0, []⟩ ⟨fun _ => true, 0, []⟩, .empty⟩

theorem freshServer_completes (conforms : Conforms ty result) (lengths : LengthsFit ty result)
    {goalBuf resultBuf maxGoals : Nat} (positive : 1 ≤ maxGoals)
    (roomForReply : getResultPayloadOffset + (typedWire ty result 0).length ≤ goalBuf)
    (roomForResult : (typedWire ty result 0).length ≤ resultBuf) :
    Completes ty (freshServer goalBuf resultBuf maxGoals) result where
  holds := ⟨[], WatchedServer.holds_init _ _⟩
  listening := ⟨List.length_replicate, fun _ => rfl⟩
  positive := positive
  conforms := conforms
  lengths := lengths
  roomForReply := roomForReply
  roomForResult := roomForResult

/-- A result that reaches its client on both paths, with the status it ended with. -/
def ResultsSurvive (m : MessageType) : Prop :=
  ∀ (γ : Type) (goalBuf resultBuf maxGoals clientBuf : Nat)
    (server : ActionServer γ goalBuf resultBuf maxGoals) (goalId : GoalUuid)
    (status : GoalStatusCode) (result : Value), Completes m.ty server result →
    status.isTerminal = true →
    getResultPayloadOffset + (typedWire m.ty result 0).length ≤ clientBuf →
    ∃ reply, Replies m.ty server goalId status result reply ∧
      parseResultResponse m.ty reply = .ok (status, result) ∧
      dispatchResult m.ty clientBuf reply = some (status, result)

theorem resultsSurvive_of_sync (found : sync m.ty (.lagging 0 1) ≠ .lost) :
    ResultsSurvive m := by
  intro γ goalBuf resultBuf maxGoals clientBuf server goalId status result completes terminal room
  exact ⟨_, completes.replies goalId status,
    parseResultResponse_of_sync completes.conforms completes.lengths found,
    dispatchResult_reply completes.conforms completes.lengths terminal room⟩

theorem not_resultsSurvive_of_lost (lost : sync m.ty (.lagging 0 1) = .lost) :
    ¬ ResultsSurvive m := by
  intro survive
  have completes := @freshServer_completes m.ty _ (conforms_sample true m.ty m.plain)
    (lengthsFit_sample true m.ty) _ _ 1 (Nat.le_refl 1) (Nat.le_refl _) (Nat.le_refl _)
  rcases survive _ _ _ _ _ _ default .succeeded _ completes rfl (Nat.le_refl _) with
    ⟨reply, replies, promise, _⟩
  rw [replies.unique (completes.replies default .succeeded)] at promise
  exact parseResultResponse_of_lost m.plain lost promise

theorem results_survive_iff (m : MessageType) :
    ResultsSurvive m ↔ sync m.ty (.lagging 0 1) ≠ .lost := by
  constructor
  · intro survive lost
    exact not_resultsSurvive_of_lost lost survive
  · exact resultsSurvive_of_sync

def boolResult : MessageType := ⟨⟨"Result", [⟨"success", .bool, 0⟩]⟩, rfl⟩

/-- A result of one `bool`: the promise path reads the padding in front of it. -/
theorem bool_result_lost : ¬ ResultsSurvive boolResult ∧
    ∃ reply, Replies boolResult.ty (freshServer 16 16 1) default .succeeded (.struct [.bool true])
        reply ∧
      parseResultResponse boolResult.ty reply = .ok (.succeeded, .struct [.bool false]) ∧
      dispatchResult boolResult.ty 16 reply = some (.succeeded, .struct [.bool true]) := by
  refine ⟨not_resultsSurvive_of_lost rfl, getResultReply .succeeded [1], ?_, rfl, rfl⟩
  have completes : Completes boolResult.ty (freshServer 16 16 1) (.struct [.bool true]) :=
    freshServer_completes (conforms_sample true boolResult.ty boolResult.plain)
      (lengthsFit_sample true boolResult.ty) (by decide) (by decide) (by decide)
  exact completes.replies default .succeeded

/-- `struct { int8 status; Result result }` from one writer behind the encapsulation header. -/
def standardReply (ty : FieldType) (status : GoalStatusCode) (result : Value) (buf : List UInt8) :
    Except SerError (List UInt8) := do
  let writer ← CdrWriter.newWithHeader buf
  let writer ← writer.writeI8 status.toI8
  let writer ← serialize ty result writer
  return writer.asSlice

theorem standardReply_eq (conforms : Conforms ty result) (lengths : LengthsFit ty result)
    (status : GoalStatusCode) {buf : List UInt8}
    (room : 5 + (typedWire ty result 1).length ≤ buf.length) :
    standardReply ty status result buf =
      .ok (cdrLeHeader ++ ([status.toI8.toUInt8] ++ typedWire ty result 1)) := by
  have opened : 4 ≤ buf.length := by omega
  have ready := ActionServerCore.replyWriter_ready buf opened
  have length := ActionServerCore.length_replyWriter buf opened
  have first : (ActionServerCore.replyWriter buf).pos + [status.toI8.toUInt8].length ≤
      (ActionServerCore.replyWriter buf).buf.length := by
    rw [length]
    change 5 ≤ _
    omega
  have ready' := ready.after _ first
  have second : ((ActionServerCore.replyWriter buf).after [status.toI8.toUInt8]).pos +
      (typedWire ty result 1).length ≤
      ((ActionServerCore.replyWriter buf).after [status.toI8.toUInt8]).buf.length := by
    rw [CdrWriter.after, length_overwrite _ _ _ first, length]
    exact room
  have written := serialize_eq_emit ty result _ conforms lengths ready' rfl
  rw [CdrWriter.emit] at written
  have body : serialize ty result ((ActionServerCore.replyWriter buf).after [status.toI8.toUInt8]) =
      .ok (((ActionServerCore.replyWriter buf).after [status.toI8.toUInt8]).after
        (typedWire ty result 1)) := written.trans (CdrWriter.put_eq_ok _ ready' _ second)
  have joined := overwrite_append buf 0 cdrLeHeader
    ([status.toI8.toUInt8] ++ typedWire ty result 1) (by rw [Nat.zero_add]; exact opened)
  have whole := take_overwrite buf 0
    (cdrLeHeader ++ ([status.toI8.toUInt8] ++ typedWire ty result 1)) (Nat.zero_le _)
  rw [List.take_zero, List.nil_append, Nat.zero_add, ← joined] at whole
  simp only [standardReply, ActionServerCore.newWithHeader_eq_ok _ opened, CdrWriter.writeI8,
    CdrWriter.writeU8, CdrWriter.put_eq_ok _ ready _ first, ok_bind, body,
    CdrWriter.after_after _ _ _ first]
  rw [List.length_append] at whole
  exact congrArg Except.ok whole

/-- The replies are the standard encoding of the status and the result. -/
def RepliesStandard (m : MessageType) : Prop :=
  ∀ (γ : Type) (goalBuf resultBuf maxGoals : Nat)
    (server : ActionServer γ goalBuf resultBuf maxGoals) (goalId : GoalUuid)
    (status : GoalStatusCode) (result : Value) (buf : List UInt8), Completes m.ty server result →
    5 + (typedWire m.ty result 1).length ≤ buf.length →
    ∃ reply, Replies m.ty server goalId status result reply ∧
      standardReply m.ty status result buf = .ok reply

theorem reply_eq_standard_iff {status : GoalStatusCode} {wire : Wire UInt8} :
    cdrLeHeader ++ ([status.toI8.toUInt8] ++ wire 1) = getResultReply status (wire 0) ↔
      wire 1 = zeros 3 ++ wire 0 := by
  have reply : getResultReply status (wire 0) =
      cdrLeHeader ++ ([status.toI8.toUInt8] ++ (zeros 3 ++ wire 0)) := rfl
  rw [reply, List.append_cancel_left_eq, List.append_cancel_left_eq]

theorem standard_of_inStep {v : Value} (conforms : Conforms ty v)
    (step : sync ty (.lagging 0 1) = .inStep) :
    typedWire ty v 1 = zeros 3 ++ typedWire ty v 0 := by
  have follows := follows_of_sync ty v (.lagging 0 1) conforms
    (by rw [step]; exact Sync.noConfusion)
  rcases follows 0 1 ⟨rfl, rfl, by decide⟩ with ⟨between, same⟩
  rw [step] at between
  have level : (typedWire ty v).stop 1 = (typedWire ty v).stop 0 + 4 := between
  rwa [level, Nat.sub_self, zeros, List.replicate_zero, List.append_nil] at same

theorem inStep_of_standard (plain : plainType ty = true)
    (same : typedWire ty (sample true ty) 1 = zeros 3 ++ typedWire ty (sample true ty) 0) :
    sync ty (.lagging 0 1) = .inStep := by
  have conforms := conforms_sample true ty plain
  cases synced : sync ty (.lagging 0 1) with
  | inStep => rfl
  | lost =>
    have behind := behindStatus_behind .succeeded (typedWire ty (sample true ty))
    have holds : (behindStatus .succeeded (typedWire ty (sample true ty) 0)).Holds
        (typedWire ty (sample true ty)) := by
      change typedWire ty (sample true ty) 1 <+: _
      rw [same]
      exact behind.ahead
    exact absurd (deserialize_of_holds ty _ _ conforms (lengthsFit_sample true ty) behind.ready
      behind.plain holds) (misreads ty _ 0 _ _ plain synced behind)
  | lagging written read =>
    have follows := follows_of_sync ty _ (.lagging 0 1) conforms
      (by rw [synced]; exact Sync.noConfusion)
    have between := (follows 0 1 ⟨rfl, rfl, by decide⟩).1
    rw [synced] at between
    have short := between.2.2
    rw [Wire.stop, Wire.stop, same, List.length_append, zeros, List.length_replicate] at short
    omega

theorem repliesStandard_of_inStep (step : sync m.ty (.lagging 0 1) = .inStep) :
    RepliesStandard m := by
  intro γ goalBuf resultBuf maxGoals server goalId status result buf completes room
  refine ⟨_, completes.replies goalId status, ?_⟩
  rw [standardReply_eq completes.conforms completes.lengths status room,
    reply_eq_standard_iff.mpr (standard_of_inStep completes.conforms step)]

theorem inStep_of_repliesStandard (standard : RepliesStandard m) :
    sync m.ty (.lagging 0 1) = .inStep := by
  have conforms := conforms_sample true m.ty m.plain
  have lengths := lengthsFit_sample true m.ty
  have completes := @freshServer_completes m.ty _ conforms lengths _ _ 1 (Nat.le_refl 1)
    (Nat.le_refl _) (Nat.le_refl _)
  have room : 5 + (typedWire m.ty (sample true m.ty) 1).length ≤
      (zeros (5 + (typedWire m.ty (sample true m.ty) 1).length)).length := by
    rw [zeros, List.length_replicate]
  rcases standard _ _ _ _ _ default .succeeded _ _ completes room with ⟨reply, replies, encoded⟩
  rw [replies.unique (completes.replies default .succeeded),
    standardReply_eq conforms lengths .succeeded room, Except.ok.injEq] at encoded
  exact inStep_of_standard m.plain (reply_eq_standard_iff.mp encoded)

theorem get_result_reply_standard_iff (m : MessageType) :
    RepliesStandard m ↔ sync m.ty (.lagging 0 1) = .inStep :=
  ⟨inStep_of_repliesStandard, repliesStandard_of_inStep⟩

/-- A result of one `bool` lies at byte 8 of the reply, and at byte 5 of the standard encoding. -/
theorem bool_reply_not_standard : ¬ RepliesStandard boolResult ∧
    Replies boolResult.ty (freshServer 16 16 1) default .succeeded (.struct [.bool true])
      (cdrLeHeader ++ [4, 0, 0, 0, 1]) ∧
    standardReply boolResult.ty .succeeded (.struct [.bool true]) (List.replicate 16 0) =
      .ok (cdrLeHeader ++ [4, 1]) := by
  have completes : Completes boolResult.ty (freshServer 16 16 1) (.struct [.bool true]) :=
    freshServer_completes (conforms_sample true boolResult.ty boolResult.plain)
      (lengthsFit_sample true boolResult.ty) (by decide) (by decide) (by decide)
  refine ⟨?_, completes.replies default .succeeded, rfl⟩
  intro standard
  exact nomatch inStep_of_repliesStandard standard

end NanoRos
