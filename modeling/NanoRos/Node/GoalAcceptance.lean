import NanoRos.Node.GetResult

/-! Who is told that a goal was accepted: the client by the reply, the application by
`try_accept_goal` or by the `accepted_callback` of the raw dispatcher, the server by its table of
active goals. -/

namespace NanoRos

open LittleEndian Memory

inductive GoalResponse where
  | reject
  | acceptAndExecute
  | acceptAndDefer
  deriving DecidableEq

def GoalResponse.isAccepted : GoalResponse → Bool
  | .reject => false
  | .acceptAndExecute | .acceptAndDefer => true

def replyStatusOffset : Nat := 4

/-- `action_frame::goal_accepted`: how a client reads the reply. -/
def goalAccepted (reply : List UInt8) : Bool :=
  replyStatusOffset < reply.length && reply.getD replyStatusOffset 0 != 0

def goalUuidSize : Nat := 16

/-- A read whose result is thrown away: on an error the reader stays where it is. -/
def skipU8 (reader : CdrReader) : CdrReader :=
  match reader.readU8 with
  | .ok (_, reader) => reader
  | .error _ => reader

/-- The goal behind the id of a request, by the goal type's own `deserialize`. -/
def decodeGoal {γ : Type} (deserialize : CdrReader → Option γ) (buf : List UInt8)
    (request : RawGoalRequest) : Except NodeError γ :=
  match CdrReader.newWithHeader (slice buf request.dataOffset request.dataLen) with
  | .error _ => .error (.transport .deserializationError)
  | .ok reader =>
    match deserialize (skipU8^[goalUuidSize] reader) with
    | none => .error (.transport .deserializationError)
    | some goal => .ok goal

/-- The typed server: the core and the goals it took. -/
structure ActionServer (γ : Type) (goalBuf resultBuf maxGoals : Nat) where
  core : ActionServerCore goalBuf resultBuf maxGoals
  typedGoals : BoundedVec γ maxGoals

section TryAccept

variable {γ : Type} {goalBuf resultBuf maxGoals : Nat}

/-- `stamp` is the ROS clock when the goal is accepted. -/
def ActionServer.tryAcceptGoal (deserialize : CdrReader → Option γ)
    (goalHandler : GoalUuid → γ → GoalResponse) (server : ActionServer γ goalBuf resultBuf maxGoals)
    (take : Take goalBuf) (stamp : Time) :
    Except NodeError (Option GoalUuid) × ActionServer γ goalBuf resultBuf maxGoals :=
  match server.core.tryRecvGoalRequest take with
  | (.error e, core) => (.error e, { server with core := core })
  | (.ok none, core) => (.ok none, { server with core := core })
  | (.ok (some rawReq), core) =>
    match decodeGoal deserialize core.goalBuffer rawReq with
    | .error e => (.error e, { server with core := core })
    | .ok goal =>
      if (goalHandler rawReq.goalId goal).isAccepted then
        match core.acceptGoal rawReq.goalId rawReq.sequenceNumber stamp with
        | (.error e, core) => (.error e, { server with core := core })
        | (.ok _, core) =>
          (.ok (some rawReq.goalId), ⟨core, (server.typedGoals.push goal).getD server.typedGoals⟩)
      else
        match core.rejectGoal rawReq.sequenceNumber with
        | (.error e, core) => (.error e, { server with core := core })
        | (.ok _, core) => (.ok none, { server with core := core })

/-- The goal branch of `action_server_raw_try_process`: whether it did work, and the goal its
`accepted_callback` was run with. -/
def rawGoalBranch (goalCallback : GoalUuid → List UInt8 → GoalResponse) (acceptedCallback : Bool)
    (core : ActionServerCore goalBuf resultBuf maxGoals) (take : Take goalBuf) (stamp : Time) :
    Bool × Option GoalUuid × ActionServerCore goalBuf resultBuf maxGoals :=
  match core.tryRecvGoalRequest take with
  | (.error _, core) => (false, none, core)
  | (.ok none, core) => (false, none, core)
  | (.ok (some rawReq), core) =>
    let goalData := core.goalBuffer.take rawReq.dataLen
    if (goalCallback rawReq.goalId goalData).isAccepted then
      let core := (core.acceptGoal rawReq.goalId rawReq.sequenceNumber stamp).2
      (true, if acceptedCallback then some rawReq.goalId else none, core)
    else (true, none, (core.rejectGoal rawReq.sequenceNumber).2)

end TryAccept

/-- `[CDR header][accepted u8][pad to 4][stamp]`. -/
def goalReplyBytes (accepted : UInt8) (stamp : Time) : List UInt8 :=
  cdrLeHeader ++ (([accepted] ++ ([0, 0, 0] ++ leBytes 4 stamp.sec.toUInt32.toNat)) ++
    leBytes 4 stamp.nanosec.toNat)

theorem length_goalReplyBytes (accepted : UInt8) (stamp : Time) :
    (goalReplyBytes accepted stamp).length = 16 := by
  simp [goalReplyBytes, cdrLeHeader, length_leBytes]

theorem goalAccepted_goalReplyBytes (accepted : UInt8) (stamp : Time) :
    goalAccepted (goalReplyBytes accepted stamp) = (accepted != 0) := by
  rw [goalAccepted, length_goalReplyBytes]
  rfl

namespace ActionServerCore

variable {goalBuf resultBuf maxGoals : Nat}

theorem writeWord_eq_ok {w : CdrWriter} (ready : w.Ready) {width value : Nat} {bytes : List UInt8}
    (placed : cdrWord w.version width value w.offset = bytes)
    (fits : w.pos + bytes.length ≤ w.buf.length) :
    CdrWriter.writeWord width w value = .ok (w.after bytes) := by
  rw [CdrWriter.writeWord_eq_emit w ready, CdrWriter.emit, placed]
  exact CdrWriter.put_eq_ok w ready bytes fits

theorem goalReply_ok (core : ActionServerCore goalBuf resultBuf maxGoals) (accepted : UInt8)
    (stamp : Time) (room : 16 ≤ core.cancelBuffer.length) :
    core.goalReply accepted stamp = .ok (16, { core with
      cancelBuffer := overwrite core.cancelBuffer 0 (goalReplyBytes accepted stamp) }) := by
  have opened : 4 ≤ core.cancelBuffer.length := by omega
  have ready := replyWriter_ready core.cancelBuffer opened
  have length := length_replyWriter core.cancelBuffer opened
  have roomFor (bytes : List UInt8) (short : bytes.length ≤ 12) :
      (replyWriter core.cancelBuffer).pos + bytes.length ≤
        (replyWriter core.cancelBuffer).buf.length := by
    rw [length]
    change 4 + bytes.length ≤ _
    omega
  have first := roomFor [accepted] (by simp)
  have second := roomFor ([accepted] ++ ([0, 0, 0] ++ leBytes 4 stamp.sec.toUInt32.toNat))
    (by simp)
  have third := roomFor (([accepted] ++ ([0, 0, 0] ++ leBytes 4 stamp.sec.toUInt32.toNat)) ++
    leBytes 4 stamp.nanosec.toNat) (by simp)
  have flag : (replyWriter core.cancelBuffer).writeU8 accepted =
      .ok ((replyWriter core.cancelBuffer).after [accepted]) :=
    CdrWriter.put_eq_ok _ ready _ first
  have seconds : ((replyWriter core.cancelBuffer).after [accepted]).writeI32 stamp.sec =
      .ok ((replyWriter core.cancelBuffer).after
        ([accepted] ++ ([0, 0, 0] ++ leBytes 4 stamp.sec.toUInt32.toNat))) := by
    rw [← CdrWriter.after_after _ _ _ first]
    apply writeWord_eq_ok (ready.after _ first) rfl
    rw [CdrWriter.after_pos, CdrWriter.after, length_overwrite _ _ _ first, Nat.add_assoc,
      ← List.length_append]
    exact second
  have nanos : ((replyWriter core.cancelBuffer).after
      ([accepted] ++ ([0, 0, 0] ++ leBytes 4 stamp.sec.toUInt32.toNat))).writeU32 stamp.nanosec =
      .ok ((replyWriter core.cancelBuffer).after
        (([accepted] ++ ([0, 0, 0] ++ leBytes 4 stamp.sec.toUInt32.toNat)) ++
          leBytes 4 stamp.nanosec.toNat)) := by
    rw [← CdrWriter.after_after _ _ _ second]
    apply writeWord_eq_ok (ready.after _ second)
    · simp [cdrWord, CdrWriter.offset, Wire.andThen, Wire.align, Wire.lit, replyWriter, alignCap,
        padding]
    · rw [CdrWriter.after_pos, CdrWriter.after, length_overwrite _ _ _ second, Nat.add_assoc,
        ← List.length_append]
      exact third
  have joined : ((replyWriter core.cancelBuffer).after
      (([accepted] ++ ([0, 0, 0] ++ leBytes 4 stamp.sec.toUInt32.toNat)) ++
        leBytes 4 stamp.nanosec.toNat)).buf =
      overwrite core.cancelBuffer 0 (goalReplyBytes accepted stamp) :=
    overwrite_append core.cancelBuffer 0 cdrLeHeader _ (by rw [Nat.zero_add]; exact opened)
  simp only [goalReply, newWithHeader_eq_ok _ opened, Except.mapError, ok_bind, flag, seconds,
    nanos]
  rw [joined]
  rfl

/-- Whether the backend takes the next reply to a `send_goal` request. -/
def takesReply (core : ActionServerCore goalBuf resultBuf maxGoals) : Bool :=
  core.sendGoalServer.accepts core.sendGoalServer.calls

/-- What the client was sent, if anything, and what became of the table of active goals. -/
def Answered (core core' : ActionServerCore goalBuf resultBuf maxGoals) (goalId : GoalUuid)
    (seq : Int64) (stamp : Time) : Option Bool → Prop
  | none =>
    core'.sendGoalServer.sent = core.sendGoalServer.sent ∧
      core'.activeGoals.items = core.activeGoals.items
  | some false =>
    core'.sendGoalServer.sent = core.sendGoalServer.sent ++ [(seq, goalReplyBytes 0 ⟨0, 0⟩)] ∧
      core'.activeGoals.items = core.activeGoals.items
  | some true =>
    core'.sendGoalServer.sent = core.sendGoalServer.sent ++ [(seq, goalReplyBytes 1 stamp)] ∧
      core'.activeGoals.items = core.activeGoals.items ++ [⟨goalId, .accepted, stamp⟩]

theorem rejectGoal_answered (core : ActionServerCore goalBuf resultBuf maxGoals)
    (goalId : GoalUuid) (seq : Int64) (stamp : Time) (room : 16 ≤ core.cancelBuffer.length) :
    Answered core (core.rejectGoal seq).2 goalId seq stamp
        (if core.takesReply then some false else none) ∧
      (core.rejectGoal seq).1.isOk = core.takesReply ∧
      (core.rejectGoal seq).2.cancelBuffer.length = core.cancelBuffer.length := by
  have fits : 0 + (goalReplyBytes 0 ⟨0, 0⟩).length ≤ core.cancelBuffer.length := by
    rw [length_goalReplyBytes]
    exact room
  have written := take_overwrite core.cancelBuffer 0 (goalReplyBytes 0 ⟨0, 0⟩) (Nat.zero_le _)
  rw [length_goalReplyBytes, List.take_zero, List.nil_append] at written
  have kept := length_overwrite core.cancelBuffer 0 (goalReplyBytes 0 ⟨0, 0⟩) fits
  rw [rejectGoal, core.goalReply_ok 0 ⟨0, 0⟩ room]
  dsimp only
  rw [written, ServiceServer.sendResponse, takesReply]
  cases core.sendGoalServer.accepts core.sendGoalServer.calls with
  | true | false => exact ⟨⟨rfl, rfl⟩, rfl, kept⟩

/-- Accepted where there is room, answered with a rejection where there is none; in both cases
`Ok` tells only that the backend took the reply. -/
theorem acceptGoal_answered (core : ActionServerCore goalBuf resultBuf maxGoals)
    (goalId : GoalUuid) (seq : Int64) (stamp : Time) (room : 16 ≤ core.cancelBuffer.length) :
    Answered core (core.acceptGoal goalId seq stamp).2 goalId seq stamp
        (if core.takesReply then some (decide (core.activeGoals.len < maxGoals)) else none) ∧
      (core.acceptGoal goalId seq stamp).1.isOk = core.takesReply ∧
      (core.acceptGoal goalId seq stamp).2.cancelBuffer.length = core.cancelBuffer.length := by
  have fits : 0 + (goalReplyBytes 1 stamp).length ≤ core.cancelBuffer.length := by
    rw [length_goalReplyBytes]
    exact room
  have written := take_overwrite core.cancelBuffer 0 (goalReplyBytes 1 stamp) (Nat.zero_le _)
  rw [length_goalReplyBytes, List.take_zero, List.nil_append] at written
  have kept := length_overwrite core.cancelBuffer 0 (goalReplyBytes 1 stamp) fits
  rw [acceptGoal, core.goalReply_ok 1 stamp room]
  dsimp only
  by_cases space : core.activeGoals.len < maxGoals
  · rcases core.activeGoals.push_of_room ⟨goalId, .accepted, stamp⟩ space with
      ⟨active, pushed, items⟩
    rw [pushed, decide_eq_true space]
    dsimp only
    rw [written, ServiceServer.sendResponse, takesReply]
    cases core.sendGoalServer.accepts core.sendGoalServer.calls with
    | true => exact ⟨⟨rfl, items⟩, rfl, kept⟩
    | false =>
      refine ⟨⟨rfl, ?_⟩, rfl, kept⟩
      change active.items.dropLast = _
      rw [items, List.dropLast_concat]
  · have full : core.activeGoals.push ⟨goalId, .accepted, stamp⟩ = none := dif_neg space
    rw [full, decide_eq_false space]
    dsimp only
    rcases @rejectGoal_answered goalBuf resultBuf maxGoals { core with
      cancelBuffer := overwrite core.cancelBuffer 0 (goalReplyBytes 1 stamp) } goalId seq stamp
      (by rw [kept]; exact room) with ⟨answered, ok, length⟩
    refine ⟨?_, ok, length.trans kept⟩
    have same : @takesReply goalBuf resultBuf maxGoals { core with
        cancelBuffer := overwrite core.cancelBuffer 0 (goalReplyBytes 1 stamp) } =
        core.takesReply := rfl
    rw [same] at answered
    cases taken : core.takesReply with
    | true =>
      rw [taken, if_pos rfl] at answered
      exact ⟨answered.1, answered.2⟩
    | false =>
      rw [taken, if_neg Bool.false_ne_true] at answered
      exact ⟨answered.1, answered.2⟩

end ActionServerCore

/-- What the three parties were told about one `send_goal` request. -/
structure GoalDecision where
  goalId : GoalUuid
  sequenceNumber : Int64
  /-- `try_accept_goal` returned the id, or the `accepted_callback` ran. -/
  told : Bool
  /-- The replies that went out while the request was handled. -/
  replies : List (Int64 × List UInt8)
  before : List RawActiveGoal
  after : List RawActiveGoal

namespace GoalDecision

def clientAccepted (d : GoalDecision) : Bool :=
  d.replies.any fun reply => reply.1 == d.sequenceNumber && goalAccepted reply.2

/-- All three agree, and nothing happens to the table but an acceptance. -/
structure Agreed (d : GoalDecision) : Prop where
  application : d.told = d.clientAccepted
  added : d.clientAccepted = true ↔ ∃ stamp, d.after = d.before ++ [⟨d.goalId, .accepted, stamp⟩]
  unchanged : d.clientAccepted = false → d.after = d.before

end GoalDecision

section Decisions

variable {goalBuf resultBuf maxGoals : Nat}

def decision (core core' : ActionServerCore goalBuf resultBuf maxGoals) (goalId : GoalUuid)
    (seq : Int64) (told : Bool) : GoalDecision where
  goalId := goalId
  sequenceNumber := seq
  told := told
  replies := core'.sendGoalServer.sent.drop core.sendGoalServer.sent.length
  before := core.activeGoals.items
  after := core'.activeGoals.items

theorem agreed_iff_told {core core' : ActionServerCore goalBuf resultBuf maxGoals}
    {goalId : GoalUuid} {seq : Int64} {stamp : Time} {reply : Option Bool}
    (answered : ActionServerCore.Answered core core' goalId seq stamp reply) (told : Bool) :
    (decision core core' goalId seq told).Agreed ↔ told = (reply == some true) := by
  have client : (decision core core' goalId seq told).clientAccepted = (reply == some true) := by
    rw [GoalDecision.clientAccepted, decision]
    rcases reply with _ | _ | _
    · rw [answered.1, List.drop_length]
      rfl
    · rw [answered.1, List.drop_left]
      simp [goalAccepted_goalReplyBytes]
    · rw [answered.1, List.drop_left]
      simp [goalAccepted_goalReplyBytes]
  constructor
  · intro agreed
    rw [← client]
    exact agreed.application
  · intro same
    refine ⟨same.trans client.symm, ?_, ?_⟩
    · rw [client]
      rcases reply with _ | _ | _
      · have unchanged := answered.2
        simp [decision, unchanged]
      · have unchanged := answered.2
        simp [decision, unchanged]
      · exact ⟨fun _ => ⟨stamp, answered.2⟩, fun _ => rfl⟩
    · rw [client]
      rcases reply with _ | _ | _
      · exact fun _ => answered.2
      · exact fun _ => answered.2
      · exact fun impossible => nomatch impossible

end Decisions

/-- A server driven by its dispatchers, with every decision it took. -/
structure AcceptanceRun (γ : Type) (goalBuf resultBuf maxGoals : Nat) where
  server : ActionServer γ goalBuf resultBuf maxGoals
  history : List Completion
  decisions : List GoalDecision

inductive AcceptanceEvent (γ : Type) (goalBuf : Nat) where
  /-- The goal step of `action_server_try_process` and of `ActionServer::poll`. -/
  | typed (take : Take goalBuf) (stamp : Time) (goalHandler : GoalUuid → γ → GoalResponse)
  /-- The goal step of `action_server_raw_try_process`, with an `accepted_callback`. -/
  | raw (take : Take goalBuf) (stamp : Time) (goalCallback : GoalUuid → List UInt8 → GoalResponse)
  | setStatus (goalId : GoalUuid) (status : GoalStatusCode)
  /-- `try_handle_cancel` takes into the cancel buffer and replies from the goal buffer; the
  goals it cancels follow as `setStatus`. -/
  | cancel (request : Vector UInt8 cancelBuf) (reply : Vector UInt8 goalBuf)
  | complete (c : Completion)
  | expire
  | getResult (take : Take goalBuf) (defaultResultCdr : List UInt8)

namespace AcceptanceRun

variable {γ : Type} {goalBuf resultBuf maxGoals : Nat}

def core (s : AcceptanceRun γ goalBuf resultBuf maxGoals) :
    ActionServerCore goalBuf resultBuf maxGoals := s.server.core

def init (sendGoalServer getResultServer : ServiceServer) :
    AcceptanceRun γ goalBuf resultBuf maxGoals :=
  ⟨⟨.fromChannels sendGoalServer getResultServer, .empty⟩, [], []⟩

def withCore (s : AcceptanceRun γ goalBuf resultBuf maxGoals)
    (core : ActionServerCore goalBuf resultBuf maxGoals) :
    AcceptanceRun γ goalBuf resultBuf maxGoals :=
  { s with server := { s.server with core := core } }

/-- The record of a take: one decision where there was a request. -/
def decided (s : AcceptanceRun γ goalBuf resultBuf maxGoals) (take : Take goalBuf)
    (core : ActionServerCore goalBuf resultBuf maxGoals) (told : Bool) : List GoalDecision :=
  match (s.core.tryRecvGoalRequest take).1 with
  | .ok (some request) => [decision s.core core request.goalId request.sequenceNumber told]
  | _ => []

/-- `Ok(Some(_))`: the goal was accepted, as far as the application knows. -/
def toldOf : Except NodeError (Option GoalUuid) → Bool
  | .ok (some _) => true
  | _ => false

def step (deserialize : CdrReader → Option γ) (s : AcceptanceRun γ goalBuf resultBuf maxGoals) :
    AcceptanceEvent γ goalBuf → Option (AcceptanceRun γ goalBuf resultBuf maxGoals)
  | .typed take stamp goalHandler =>
    let (result, server) := s.server.tryAcceptGoal deserialize goalHandler take stamp
    some ⟨server, s.history, s.decisions ++ s.decided take server.core (toldOf result)⟩
  | .raw take stamp goalCallback =>
    let (_, told, core) := rawGoalBranch goalCallback true s.core take stamp
    some { s.withCore core with
      decisions := s.decisions ++ s.decided take core told.isSome }
  | .setStatus goalId status => some (s.withCore (s.core.setGoalStatus goalId status))
  | .cancel request reply => some (s.withCore { s.core with
      cancelBuffer := request.toList
      goalBuffer := reply.toList })
  | .complete c => some { s.withCore (s.core.completeGoalRaw c.goalId c.status c.resultCdr).2 with
      history := s.history ++ [c] }
  | .expire => some (s.withCore s.core.expireCompletedResults.2)
  | .getResult take defaultResultCdr =>
    some (s.withCore (s.core.tryHandleGetResultRaw take defaultResultCdr).2)

/-- An accepting answer of the application can be carried out. The typed dispatcher needs room
in the table, unless the backend refuses the reply anyhow; the raw one needs both. -/
def CanAccept (deserialize : CdrReader → Option γ)
    (s : AcceptanceRun γ goalBuf resultBuf maxGoals) : AcceptanceEvent γ goalBuf → Prop
  | .typed take _ goalHandler =>
    ∀ request goal, (s.core.tryRecvGoalRequest take).1 = .ok (some request) →
      decodeGoal deserialize take.buf request = .ok goal →
      (goalHandler request.goalId goal).isAccepted = true →
      s.core.activeGoals.len < maxGoals ∨ s.core.takesReply = false
  | .raw take _ goalCallback =>
    ∀ request, (s.core.tryRecvGoalRequest take).1 = .ok (some request) →
      (goalCallback request.goalId (take.buf.take request.dataLen)).isAccepted = true →
      s.core.activeGoals.len < maxGoals ∧ s.core.takesReply = true
  | _ => True

/-- What a run keeps next to the agreement. -/
structure Kept (s : AcceptanceRun γ goalBuf resultBuf maxGoals) : Prop where
  holds : s.core.Holds s.history
  cancel : s.core.cancelBuffer.length = cancelBuf
  agreed : ∀ d ∈ s.decisions, d.Agreed

variable {s : AcceptanceRun γ goalBuf resultBuf maxGoals} {take : Take goalBuf}
  {deserialize : CdrReader → Option γ}

theorem Kept.room (kept : s.Kept) (take : Take goalBuf) :
    16 ≤ (s.core.takeRequest take).cancelBuffer.length := by
  change 16 ≤ s.core.cancelBuffer.length
  rw [kept.cancel]
  decide

def Disagreed (s : AcceptanceRun γ goalBuf resultBuf maxGoals) : Prop :=
  ∃ d ∈ s.decisions, ¬ d.Agreed

theorem decided_agreed {core : ActionServerCore goalBuf resultBuf maxGoals} {told : Bool}
    {request : RawGoalRequest} {stamp : Time} {reply : Option Bool}
    (received : (s.core.tryRecvGoalRequest take).1 = .ok (some request))
    (answered : ActionServerCore.Answered s.core core request.goalId request.sequenceNumber stamp
      reply) :
    (∀ d ∈ s.decided take core told, d.Agreed) ↔ told = (reply == some true) := by
  rw [decided, received]
  simp only [List.mem_singleton, forall_eq]
  exact agreed_iff_told answered told

theorem decided_nothing {core : ActionServerCore goalBuf resultBuf maxGoals} {told : Bool}
    (nothing : ∀ request, (s.core.tryRecvGoalRequest take).1 ≠ .ok (some request)) :
    ∀ d ∈ s.decided take core told, d.Agreed := by
  intro d member
  rw [decided] at member
  split at member
  case h_1 request received => exact absurd received (nothing request)
  case h_2 => cases member

theorem answered_of_taken {core core' : ActionServerCore goalBuf resultBuf maxGoals}
    {goalId : GoalUuid} {seq : Int64} {stamp : Time} {reply : Option Bool}
    (answered : ActionServerCore.Answered (core.takeRequest take) core' goalId seq stamp reply) :
    ActionServerCore.Answered core core' goalId seq stamp reply := by
  rcases reply with _ | _ | _
  · exact answered
  · exact answered
  · exact answered

section Dispatchers

variable {s : AcceptanceRun γ goalBuf resultBuf maxGoals} {take : Take goalBuf}

theorem received_eq {result : Except NodeError (Option RawGoalRequest)}
    {core : ActionServerCore goalBuf resultBuf maxGoals}
    (received : s.core.tryRecvGoalRequest take = (result, core)) :
    (s.core.tryRecvGoalRequest take).1 = result ∧ core = s.core.takeRequest take := by
  rw [← s.core.tryRecvGoalRequest_frame take, received]
  exact ⟨rfl, rfl⟩

theorem kept_answer (kept : s.Kept) (goalId : GoalUuid) (seq : Int64) (stamp : Time) :
    ((s.core.takeRequest take).acceptGoal goalId seq stamp).2.Holds s.history ∧
      ((s.core.takeRequest take).acceptGoal goalId seq stamp).2.cancelBuffer.length = cancelBuf ∧
      ((s.core.takeRequest take).rejectGoal seq).2.Holds s.history ∧
      ((s.core.takeRequest take).rejectGoal seq).2.cancelBuffer.length = cancelBuf := by
  have room := kept.room take
  have accepted := (s.core.takeRequest take).acceptGoal_answered goalId seq stamp room
  have rejected := (s.core.takeRequest take).rejectGoal_answered goalId seq stamp room
  have holds : (s.core.takeRequest take).Holds s.history := kept.holds
  exact ⟨(ActionServerCore.acceptGoal_keeps holds goalId seq stamp).1,
    accepted.2.2.trans kept.cancel, (ActionServerCore.rejectGoal_keeps holds seq).1,
    rejected.2.2.trans kept.cancel⟩

theorem accepted_reply (taken answer : Bool) :
    ((if taken then some answer else none) == some true) = (taken && answer) := by
  cases taken <;> cases answer <;> rfl

theorem raw_decides (deserialize : CdrReader → Option γ) (kept : s.Kept) (stamp : Time)
    (goalCallback : GoalUuid → List UInt8 → GoalResponse) :
    ((∀ d ∈ s.decided take (rawGoalBranch goalCallback true s.core take stamp).2.2
        (rawGoalBranch goalCallback true s.core take stamp).2.1.isSome, d.Agreed) ↔
      s.CanAccept deserialize (.raw take stamp goalCallback)) ∧
    (rawGoalBranch goalCallback true s.core take stamp).2.2.Holds s.history ∧
    (rawGoalBranch goalCallback true s.core take stamp).2.2.cancelBuffer.length = cancelBuf := by
  have room := kept.room take
  rcases received : s.core.tryRecvGoalRequest take with ⟨_ | _ | request, core⟩
  · rcases received_eq received with ⟨first, rfl⟩
    simp only [rawGoalBranch, received]
    refine ⟨iff_of_true (decided_nothing (by simp [first])) ?_, kept.holds, kept.cancel⟩
    intro request some'
    simp [first] at some'
  · rcases received_eq received with ⟨first, rfl⟩
    simp only [rawGoalBranch, received]
    refine ⟨iff_of_true (decided_nothing (by simp [first])) ?_, kept.holds, kept.cancel⟩
    intro request some'
    simp [first] at some'
  · rcases received_eq received with ⟨first, rfl⟩
    rcases @kept_answer γ goalBuf resultBuf maxGoals s take kept request.goalId
      request.sequenceNumber stamp with ⟨holds, length, holds', length'⟩
    have buffer : (s.core.takeRequest take).goalBuffer = take.buf := rfl
    by_cases accepts :
        (goalCallback request.goalId (take.buf.take request.dataLen)).isAccepted = true
    · rcases (s.core.takeRequest take).acceptGoal_answered request.goalId request.sequenceNumber
        stamp room with ⟨answered, _, _⟩
      simp only [rawGoalBranch, received, buffer, accepts, if_true, Option.isSome_some]
      refine ⟨?_, holds, length⟩
      rw [decided_agreed first (answered_of_taken answered), accepted_reply, eq_comm,
        Bool.and_eq_true, decide_eq_true_iff]
      constructor
      · intro both request' _ _
        exact ⟨both.2, both.1⟩
      · intro can
        exact (can request first accepts).symm
    · rcases (s.core.takeRequest take).rejectGoal_answered request.goalId request.sequenceNumber
        stamp room with ⟨answered, _, _⟩
      simp only [rawGoalBranch, received, buffer, accepts, if_false, Option.isSome_none,
        Bool.false_eq_true]
      refine ⟨?_, holds', length'⟩
      rw [decided_agreed first (answered_of_taken answered), accepted_reply, Bool.and_false]
      refine iff_of_true rfl ?_
      intro request' same accepting
      rw [first] at same
      cases same
      exact absurd accepting accepts

theorem typed_decides (deserialize : CdrReader → Option γ) (kept : s.Kept) (stamp : Time)
    (goalHandler : GoalUuid → γ → GoalResponse) {result : Except NodeError (Option GoalUuid)}
    {server : ActionServer γ goalBuf resultBuf maxGoals}
    (tried : s.server.tryAcceptGoal deserialize goalHandler take stamp = (result, server)) :
    ((∀ d ∈ s.decided take server.core (toldOf result), d.Agreed) ↔
      s.CanAccept deserialize (.typed take stamp goalHandler)) ∧
    server.core.Holds s.history ∧ server.core.cancelBuffer.length = cancelBuf := by
  have room := kept.room take
  have same : s.server.core = s.core := rfl
  rcases received : s.core.tryRecvGoalRequest take with ⟨_ | _ | request, core⟩
  · rcases received_eq received with ⟨first, rfl⟩
    simp only [ActionServer.tryAcceptGoal, same, received] at tried
    cases tried
    refine ⟨iff_of_true (decided_nothing (by simp [first])) ?_, kept.holds, kept.cancel⟩
    intro request goal some'
    simp [first] at some'
  · rcases received_eq received with ⟨first, rfl⟩
    simp only [ActionServer.tryAcceptGoal, same, received] at tried
    cases tried
    refine ⟨iff_of_true (decided_nothing (by simp [first])) ?_, kept.holds, kept.cancel⟩
    intro request goal some'
    simp [first] at some'
  · rcases received_eq received with ⟨first, rfl⟩
    rcases @kept_answer γ goalBuf resultBuf maxGoals s take kept request.goalId
      request.sequenceNumber stamp with ⟨holds, length, holds', length'⟩
    have buffer : (s.core.takeRequest take).goalBuffer = take.buf := rfl
    simp only [ActionServer.tryAcceptGoal, same, received, buffer] at tried
    cases decoded : decodeGoal deserialize take.buf request with
    | error e =>
      rw [decoded] at tried
      cases tried
      refine ⟨?_, kept.holds, kept.cancel⟩
      have quiet : ActionServerCore.Answered s.core (s.core.takeRequest take) request.goalId
          request.sequenceNumber stamp none := ⟨rfl, rfl⟩
      rw [decided_agreed first quiet]
      refine iff_of_true rfl ?_
      intro request' goal same' decoded'
      rw [first] at same'
      cases same'
      rw [decoded] at decoded'
      cases decoded'
    | ok goal =>
      rw [decoded] at tried
      dsimp only at tried
      have only : ∀ request' goal', (s.core.tryRecvGoalRequest take).1 = .ok (some request') →
          decodeGoal deserialize take.buf request' = .ok goal' →
          request' = request ∧ goal' = goal := by
        intro request' goal' same' decoded'
        rw [first] at same'
        cases same'
        rw [decoded] at decoded'
        cases decoded'
        exact ⟨rfl, rfl⟩
      split at tried
      case isTrue accepts =>
        rcases (s.core.takeRequest take).acceptGoal_answered request.goalId
          request.sequenceNumber stamp room with ⟨answered, ok, _⟩
        -- `Ok` of the reply is what the application is told
        have told : server.core = ((s.core.takeRequest take).acceptGoal request.goalId
            request.sequenceNumber stamp).2 ∧ toldOf result = s.core.takesReply := by
          rcases outcome : (s.core.takeRequest take).acceptGoal request.goalId
            request.sequenceNumber stamp with ⟨_ | _, core⟩
          · rw [outcome] at tried ok
            cases tried
            exact ⟨rfl, ok⟩
          · rw [outcome] at tried ok
            cases tried
            exact ⟨rfl, ok⟩
        rw [told.1, told.2]
        refine ⟨?_, holds, length⟩
        rw [decided_agreed first (answered_of_taken answered), accepted_reply]
        change s.core.takesReply = (s.core.takesReply && decide (s.core.activeGoals.len < maxGoals))
          ↔ _
        rw [eq_comm, Bool.and_eq_left_iff_imp, decide_eq_true_iff]
        constructor
        · intro implied request' goal' _ _ _
          cases taken : s.core.takesReply with
          | true => exact .inl (implied taken)
          | false => exact .inr rfl
        · intro can taken
          rcases can request goal first decoded accepts with space | refused
          · exact space
          · rw [taken] at refused
            cases refused
      case isFalse refuses =>
        rcases (s.core.takeRequest take).rejectGoal_answered request.goalId
          request.sequenceNumber stamp room with ⟨answered, _, _⟩
        have told : server.core = ((s.core.takeRequest take).rejectGoal
            request.sequenceNumber).2 ∧ toldOf result = false := by
          rcases outcome : (s.core.takeRequest take).rejectGoal request.sequenceNumber with
            ⟨_ | _, core⟩
          · rw [outcome] at tried
            cases tried
            exact ⟨rfl, rfl⟩
          · rw [outcome] at tried
            cases tried
            exact ⟨rfl, rfl⟩
        rw [told.1, told.2]
        refine ⟨?_, holds', length'⟩
        rw [decided_agreed first (answered_of_taken answered), accepted_reply, Bool.and_false]
        refine iff_of_true rfl ?_
        intro request' goal' same' decoded' accepting
        rcases only request' goal' same' decoded' with ⟨rfl, rfl⟩
        exact absurd accepting refuses

end Dispatchers

theorem kept_init (sendGoalServer getResultServer : ServiceServer) :
    (init sendGoalServer getResultServer : AcceptanceRun γ goalBuf resultBuf maxGoals).Kept where
  holds := WatchedServer.holds_init sendGoalServer getResultServer
  cancel := List.length_replicate
  agreed := by
    intro d member
    cases member

theorem step_cases (deserialize : CdrReader → Option γ)
    (s : AcceptanceRun γ goalBuf resultBuf maxGoals) (e : AcceptanceEvent γ goalBuf)
    (next : AcceptanceRun γ goalBuf resultBuf maxGoals) (kept : s.Kept)
    (stepped : s.step deserialize e = some next) :
    next.core.Holds next.history ∧ next.core.cancelBuffer.length = cancelBuf ∧
      ∃ added, next.decisions = s.decisions ++ added ∧
        ((∀ d ∈ added, d.Agreed) ↔ s.CanAccept deserialize e) := by
  have quiet : (∀ d ∈ ([] : List GoalDecision), d.Agreed) ↔ True :=
    iff_of_true (fun d member => nomatch member) trivial
  cases e with
  | typed take stamp goalHandler =>
    rcases tried : s.server.tryAcceptGoal deserialize goalHandler take stamp with
      ⟨result, server⟩
    rcases typed_decides deserialize kept stamp goalHandler tried with ⟨agreed, holds, length⟩
    simp only [step, tried] at stepped
    cases stepped
    exact ⟨holds, length, _, rfl, agreed⟩
  | raw take stamp goalCallback =>
    rcases @raw_decides _ _ _ _ s take deserialize kept stamp goalCallback with
      ⟨agreed, holds, length⟩
    cases stepped
    exact ⟨holds, length, _, rfl, agreed⟩
  | setStatus goalId status =>
    cases stepped
    exact ⟨kept.holds, kept.cancel, [], (List.append_nil _).symm, quiet⟩
  | cancel request reply =>
    cases stepped
    exact ⟨kept.holds, request.length_toList, [], (List.append_nil _).symm, quiet⟩
  | complete c =>
    cases stepped
    refine ⟨ActionServerCore.completeGoalRaw_holds kept.holds c, ?_, [],
      (List.append_nil _).symm, quiet⟩
    rcases ActionServerCore.completeGoalRaw_frame kept.holds c with ⟨_, _, _, _, _, _, framed⟩
    rcases s.core.removeActiveGoal_frame c.goalId with ⟨active, removed⟩
    change (s.core.completeGoalRaw c.goalId c.status c.resultCdr).2.cancelBuffer.length = _
    rw [framed, removed]
    exact kept.cancel
  | expire =>
    cases stepped
    refine ⟨ActionServerCore.expireCompletedResults_holds kept.holds, ?_, [],
      (List.append_nil _).symm, quiet⟩
    rcases s.core.expireCompletedResults_frame with ⟨_, _, _, framed⟩
    change s.core.expireCompletedResults.2.cancelBuffer.length = _
    rw [framed]
    exact kept.cancel
  | getResult take defaultResultCdr =>
    cases stepped
    refine ⟨ActionServerCore.tryHandleGetResultRaw_holds kept.holds take defaultResultCdr, ?_,
      [], (List.append_nil _).symm, quiet⟩
    rcases s.core.tryHandleGetResultRaw_frame take defaultResultCdr with ⟨_, _, _, _, framed⟩
    change (s.core.tryHandleGetResultRaw take defaultResultCdr).2.cancelBuffer.length = _
    rw [framed]
    exact kept.cancel

theorem step_keeps (s : AcceptanceRun γ goalBuf resultBuf maxGoals) (e : AcceptanceEvent γ goalBuf)
    (next : AcceptanceRun γ goalBuf resultBuf maxGoals) (kept : s.Kept)
    (met : s.CanAccept deserialize e) (stepped : s.step deserialize e = some next) :
    next.Kept := by
  rcases step_cases deserialize s e next kept stepped with ⟨holds, cancel, added, recorded, agreed⟩
  refine ⟨holds, cancel, ?_⟩
  intro d member
  rw [recorded] at member
  rcases List.mem_append.mp member with old | new
  · exact kept.agreed d old
  · exact agreed.mpr met d new

theorem step_breaks (s : AcceptanceRun γ goalBuf resultBuf maxGoals) (e : AcceptanceEvent γ goalBuf)
    (next : AcceptanceRun γ goalBuf resultBuf maxGoals) (kept : s.Kept)
    (missed : ¬ s.CanAccept deserialize e) (stepped : s.step deserialize e = some next) :
    next.Disagreed := by
  rcases step_cases deserialize s e next kept stepped with ⟨_, _, added, recorded, agreed⟩
  by_contra all
  apply missed
  apply agreed.mp
  intro d member
  by_contra disagrees
  exact all ⟨d, by rw [recorded]; exact List.mem_append_right _ member, disagrees⟩

theorem step_lasts (s : AcceptanceRun γ goalBuf resultBuf maxGoals) (e : AcceptanceEvent γ goalBuf)
    (next : AcceptanceRun γ goalBuf resultBuf maxGoals) (disagreed : s.Disagreed)
    (stepped : s.step deserialize e = some next) : next.Disagreed := by
  rcases disagreed with ⟨d, member, disagrees⟩
  refine ⟨d, ?_, disagrees⟩
  cases e with
  | typed take stamp goalHandler | raw take stamp goalCallback =>
    cases stepped
    exact List.mem_append_left _ member
  | setStatus goalId status | cancel request reply | complete c | expire
  | getResult take defaultResultCdr =>
    cases stepped
    exact member

/-- Client, application and server agree on every goal of a run exactly when every accepting
answer could be carried out. -/
theorem goal_acceptance_agreed_iff (deserialize : CdrReader → Option γ)
    (sendGoalServer getResultServer : ServiceServer) (events : List (AcceptanceEvent γ goalBuf))
    (last : AcceptanceRun γ goalBuf resultBuf maxGoals)
    (reached : run (step deserialize) (init sendGoalServer getResultServer) events = some last) :
    (∀ d ∈ last.decisions, d.Agreed) ↔ Along (step deserialize) (CanAccept deserialize)
        (init sendGoalServer getResultServer : AcceptanceRun γ goalBuf resultBuf maxGoals)
        events := by
  have clean : ∀ s : AcceptanceRun γ goalBuf resultBuf maxGoals, s.Kept → ¬ s.Disagreed := by
    rintro s kept ⟨d, member, disagrees⟩
    exact disagrees (kept.agreed d member)
  rw [← run_sound_iff clean step_keeps step_breaks step_lasts _ last events
    (kept_init sendGoalServer getResultServer) reached, Disagreed]
  push Not
  rfl

/-- One slot: the first goal takes it, the second is refused by its handler. -/
theorem goal_acceptance_agreed_in_one_slot :
    ∃ last : AcceptanceRun Unit 32 16 1,
      run (step fun _ => some ()) (init ⟨fun _ => true, 0, []⟩ ⟨fun _ => true, 0, []⟩)
        [.typed (ResultService.askFor5 12) ⟨0, 0⟩ fun _ _ => .acceptAndExecute,
         .typed (ResultService.askFor5 12) ⟨1, 0⟩ fun _ _ => .reject] = some last ∧
      last.decisions.map (fun d => (d.told, d.clientAccepted)) = [(true, true), (false, false)] ∧
      ∀ d ∈ last.decisions, d.Agreed := by
  refine ⟨_, rfl, by decide +kernel, ?_⟩
  apply (goal_acceptance_agreed_iff (fun _ => some ()) ⟨fun _ => true, 0, []⟩
    ⟨fun _ => true, 0, []⟩
    [.typed (ResultService.askFor5 12) ⟨0, 0⟩ fun _ _ => .acceptAndExecute,
     .typed (ResultService.askFor5 12) ⟨1, 0⟩ fun _ _ => .reject] _ rfl).mpr
  rw [along_cons_iff _ _ _ _ rfl]
  refine ⟨fun _ _ _ _ _ => .inl (Nat.zero_lt_one), ?_⟩
  rw [along_cons_iff _ _ _ _ rfl]
  exact ⟨fun _ _ _ _ accepting => (nomatch accepting), trivial⟩

/-- The same slot, and a second goal the handler accepts: `try_accept_goal` returns its id, the
client reads a rejection. With the raw dispatcher a refused reply is enough: the
`accepted_callback` runs for a goal no reply went out for. -/
theorem goal_told_accepted_but_rejected : (∃ last : AcceptanceRun Unit 32 16 1,
      run (step fun _ => some ()) (init ⟨fun _ => true, 0, []⟩ ⟨fun _ => true, 0, []⟩)
        [.typed (ResultService.askFor5 12) ⟨0, 0⟩ fun _ _ => .acceptAndExecute,
         .typed (ResultService.askFor5 12) ⟨1, 0⟩ fun _ _ => .acceptAndExecute] = some last ∧
      last.decisions.map (fun d => (d.told, d.clientAccepted)) = [(true, true), (true, false)] ∧
      ¬ ∀ d ∈ last.decisions, d.Agreed) ∧
    ∃ last : AcceptanceRun Unit 32 16 1,
      run (step fun _ => some ()) (init ⟨fun _ => false, 0, []⟩ ⟨fun _ => true, 0, []⟩)
        [.raw (ResultService.askFor5 12) ⟨0, 0⟩ fun _ _ => .acceptAndExecute] = some last ∧
      last.decisions.map (fun d => (d.told, d.clientAccepted, d.after.length)) =
        [(true, false, 0)] ∧
      ¬ ∀ d ∈ last.decisions, d.Agreed := by
  refine ⟨⟨_, rfl, by decide +kernel, ?_⟩, _, rfl, by decide +kernel, ?_⟩
  · intro agreed
    have second := (agreed _ (List.mem_cons_of_mem _ List.mem_cons_self)).application
    revert second
    decide +kernel
  · intro agreed
    have first := (agreed _ List.mem_cons_self).application
    revert first
    decide +kernel

end AcceptanceRun

end NanoRos
