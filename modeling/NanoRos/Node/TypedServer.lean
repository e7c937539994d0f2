import NanoRos.Node.CancelGoals
import NanoRos.Node.ResultWire

/-! The typed action server (`ActionServer` of `handles.rs`): beside the core, the goals and the
results as the application's own types, each in a table that goes along with one of the core's. -/

namespace NanoRos

open Memory

structure CompletedGoal (ρ : Type) where
  goalId : GoalUuid
  status : GoalStatusCode
  result : ρ
  deriving DecidableEq

structure ActiveGoal (γ : Type) where
  goalId : GoalUuid
  status : GoalStatusCode
  goal : γ

/-- `A::Result: Serialize`, with a writer over `resultBuf` bytes: what it writes, or an error. -/
structure ResultCodec (ρ : Type) (resultBuf : Nat) where
  serialize : ρ → Option (List UInt8)
  fits : ∀ result bytes, serialize result = some bytes → bytes.length ≤ resultBuf

/-- What the core keeps of a result: nothing of one that does not serialise. -/
def ResultCodec.payload {ρ : Type} {resultBuf : Nat} (codec : ResultCodec ρ resultBuf)
    (result : ρ) : List UInt8 :=
  (codec.serialize result).getD []

theorem ResultCodec.length_payload {ρ : Type} {resultBuf : Nat} (codec : ResultCodec ρ resultBuf)
    (result : ρ) : (codec.payload result).length ≤ resultBuf := by
  rw [payload]
  cases written : codec.serialize result with
  | none => exact Nat.zero_le _
  | some bytes => exact codec.fits result bytes written

/-- The results of a message type. -/
abbrev MessageType.Result (m : MessageType) : Type :=
  {v : Value // Conforms m.ty v ∧ LengthsFit m.ty v}

def MessageType.codec (m : MessageType) (resultBuf : Nat) : ResultCodec m.Result resultBuf where
  serialize := fun result =>
    match NanoRos.serialize m.ty result (CdrWriter.new (List.replicate resultBuf 0)) with
    | .ok writer => some (writer.buf.take writer.position)
    | .error _ => none
  fits := by
    rintro ⟨v, conforms, lengths⟩ bytes written
    have ready : (CdrWriter.new (List.replicate resultBuf 0)).Ready :=
      ⟨Nat.le_refl _, Nat.zero_le _, rfl⟩
    rw [serialize_eq_emit m.ty v _ conforms lengths ready rfl, CdrWriter.emit,
      CdrWriter.put_eq_ite _ ready] at written
    split at written
    case h_1 writer stored =>
      split at stored
      case isTrue fits =>
        cases stored
        cases written
        have sized := length_overwrite _ _ _ fits
        rw [List.length_take, CdrWriter.after, sized]
        exact Nat.le_trans (Nat.min_le_right _ _) (by simp [CdrWriter.new])
      case isFalse => cases stored
    case h_2 => cases written

structure TypedServer (γ ρ : Type) (goalBuf resultBuf maxGoals : Nat) extends
    ActionServer γ goalBuf resultBuf maxGoals where
  cancelGoalServer : ServiceServer
  completedGoals : BoundedVec (CompletedGoal ρ) maxGoals

section Core

variable {goalBuf resultBuf maxGoals : Nat}

def ActionServerCore.hasCompletedResult (core : ActionServerCore goalBuf resultBuf maxGoals)
    (goalId : GoalUuid) : Bool :=
  core.completedResults.items.any fun e => e.goalId = goalId

/-- What an acceptance leaves in the table for as long as the goal runs. -/
def ActionServerCore.places (core : ActionServerCore goalBuf resultBuf maxGoals) :
    List (GoalUuid × Time) :=
  core.activeGoals.items.map fun g => (g.goalId, g.stamp)

end Core

namespace TypedServer

variable {γ ρ σ : Type} {goalBuf resultBuf maxGoals : Nat}

def tryAcceptGoal (deserialize : CdrReader → Option γ) (goalHandler : GoalUuid → γ → GoalResponse)
    (server : TypedServer γ ρ goalBuf resultBuf maxGoals) (take : Take goalBuf) (stamp : Time) :
    Except NodeError (Option GoalUuid) × TypedServer γ ρ goalBuf resultBuf maxGoals :=
  let tried := server.toActionServer.tryAcceptGoal deserialize goalHandler take stamp
  (tried.1, { server with toActionServer := tried.2 })

def setGoalStatus (server : TypedServer γ ρ goalBuf resultBuf maxGoals) (goalId : GoalUuid)
    (status : GoalStatusCode) : TypedServer γ ρ goalBuf resultBuf maxGoals :=
  { server with core := server.core.setGoalStatus goalId status }

def completeGoal (codec : ResultCodec ρ resultBuf)
    (server : TypedServer γ ρ goalBuf resultBuf maxGoals) (goalId : GoalUuid)
    (status : GoalStatusCode) (result : ρ) :
    Except NodeError Unit × TypedServer γ ρ goalBuf resultBuf maxGoals :=
  let serialized := codec.serialize result
  let typedGoals :=
    match server.core.activeGoals.items.findIdx? fun g => g.goalId = goalId with
    | some pos => server.typedGoals.swapRemove pos
    | none => server.typedGoals
  let (stored, core) :=
    match serialized with
    | some resultCdr => server.core.completeGoalRaw goalId status resultCdr
    | none => (.error .serialization, (server.core.completeGoalRaw goalId status []).2)
  let kept := server.completedGoals.retain fun c => core.hasCompletedResult c.goalId
  let completedGoals :=
    if core.hasCompletedResult goalId then (kept.push ⟨goalId, status, result⟩).getD kept
    else kept
  (stored, { server with
    core := core
    typedGoals := typedGoals
    completedGoals := completedGoals })

def tryHandleCancel (server : TypedServer γ ρ goalBuf resultBuf maxGoals)
    (cancelHandler : σ → GoalUuid → GoalStatusCode → CancelResponse × σ) (take : Take cancelBuf)
    (s : σ) : Except NodeError (Option (GoalUuid × CancelResponse)) ×
      TypedServer γ ρ goalBuf resultBuf maxGoals × σ :=
  let handled := (⟨server.core, server.cancelGoalServer⟩ :
    CancelServer goalBuf resultBuf maxGoals).tryHandleCancel cancelHandler take s
  (handled.1, { server with
    core := handled.2.1.core
    cancelGoalServer := handled.2.1.cancelGoalServer }, handled.2.2)

/-- `defaultResult` is `A::Result::default()`. -/
def tryHandleGetResult (codec : ResultCodec ρ resultBuf) (defaultResult : ρ)
    (server : TypedServer γ ρ goalBuf resultBuf maxGoals) (take : Take goalBuf) :
    Except NodeError (Option GoalUuid) × TypedServer γ ρ goalBuf resultBuf maxGoals :=
  let answered :=
    server.core.tryHandleGetResultRaw take (codec.payload defaultResult)
  (answered.1, { server with core := answered.2 })

/-- `none` where the typed goal is missing: the index is then out of range, and the code panics. -/
def getGoal (server : TypedServer γ ρ goalBuf resultBuf maxGoals) (goalId : GoalUuid) :
    Option (Option (ActiveGoal γ)) :=
  match server.core.activeGoals.items.zipIdx.find? fun item => item.1.goalId = goalId with
  | none => some none
  | some (raw, i) => server.typedGoals.items[i]?.map fun goal => some ⟨raw.goalId, raw.status, goal⟩

def expireGoals (server : TypedServer γ ρ goalBuf resultBuf maxGoals) :
    Nat × TypedServer γ ρ goalBuf resultBuf maxGoals :=
  let expired := server.core.expireCompletedResults
  (expired.1, { server with core := expired.2 })

theorem completeGoal_core (codec : ResultCodec ρ resultBuf)
    (server : TypedServer γ ρ goalBuf resultBuf maxGoals) (goalId : GoalUuid)
    (status : GoalStatusCode) (result : ρ) :
    (server.completeGoal codec goalId status result).2.core =
      (server.core.completeGoalRaw goalId status (codec.payload result)).2 := by
  simp only [completeGoal, ResultCodec.payload]
  cases codec.serialize result with
  | some resultCdr => rfl
  | none => rfl

theorem completeGoal_completedGoals (codec : ResultCodec ρ resultBuf)
    (server : TypedServer γ ρ goalBuf resultBuf maxGoals) (goalId : GoalUuid)
    (status : GoalStatusCode) (result : ρ) :
    let next := (server.completeGoal codec goalId status result).2
    let kept := server.completedGoals.retain fun c => next.core.hasCompletedResult c.goalId
    next.completedGoals = if next.core.hasCompletedResult goalId then
      (kept.push ⟨goalId, status, result⟩).getD kept else kept := rfl

theorem completeGoal_toActionServer (m : MessageType)
    (server : TypedServer γ m.Result goalBuf resultBuf maxGoals) (goalId : GoalUuid)
    (status : GoalStatusCode) (result : m.Result) :
    ((server.completeGoal (m.codec resultBuf) goalId status result).1,
      (server.completeGoal (m.codec resultBuf) goalId status result).2.toActionServer) =
    server.toActionServer.completeGoal m.ty goalId status result := by
  simp only [completeGoal, ActionServer.completeGoal, MessageType.codec]
  cases serialize m.ty result (CdrWriter.new (List.replicate resultBuf 0)) with
  | ok writer => rfl
  | error e => rfl

end TypedServer

namespace ActionServerCore

variable {goalBuf resultBuf maxGoals : Nat} {core : ActionServerCore goalBuf resultBuf maxGoals}
  {history : List Completion}

theorem hasCompletedResult_iff (goalId : GoalUuid) :
    core.hasCompletedResult goalId = true ↔ goalId ∈ core.retained := by
  simp [hasCompletedResult, retained]

/-- An operation that neither starts nor ends a goal, and retains no further result. -/
structure Quiet (core core' : ActionServerCore goalBuf resultBuf maxGoals)
    (history : List Completion) : Prop where
  places : core'.places = core.places
  retained : core'.retained ⊆ core.retained
  holds : core'.Holds history
  cancel : core'.cancelBuffer.length = cancelBuf

section Quiet

variable (holds : core.Holds history) (cancel : core.cancelBuffer.length = cancelBuf)

include holds cancel

theorem setGoalStatus_quiet (goalId : GoalUuid) (status : GoalStatusCode) :
    Quiet core (core.setGoalStatus goalId status) history where
  places := map_updateFirst _ (fun g : RawActiveGoal => { g with status := status })
    (fun g => (g.goalId, g.stamp)) (fun _ => rfl) _
  retained := List.Subset.refl _
  holds := holds
  cancel := cancel

theorem expireCompletedResults_quiet : Quiet core core.expireCompletedResults.2 history where
  places := by
    rcases core.expireCompletedResults_frame with ⟨_, _, _, framed⟩
    rw [framed]
    rfl
  retained := by
    have fewer : (core.completedResults.retain fun e => !e.delivered).items.Sublist
        core.completedResults.items := List.filter_sublist
    simp only [expireCompletedResults]
    split
    · rw [(compactResultSlab_holds holds _ fewer).2]
      exact (fewer.map _).subset
    · exact (fewer.map _).subset
  holds := expireCompletedResults_holds holds
  cancel := by
    rcases core.expireCompletedResults_frame with ⟨_, _, _, framed⟩
    rw [framed]
    exact cancel

end Quiet

theorem replyGetResult_keeps (sequenceNumber : Int64) (status : GoalStatusCode) (len : Nat)
    (bytes : List UInt8) :
    (core.replyGetResult sequenceNumber status len bytes).2.retained = core.retained := by
  rcases core.replyGetResult_frame sequenceNumber status len bytes with ⟨_, _, framed⟩
  rw [framed]
  rfl

theorem answerGetResult_keeps (goalId : GoalUuid) (sequenceNumber : Int64)
    (defaultResultCdr : List UInt8) :
    (core.answerGetResult goalId sequenceNumber defaultResultCdr).2.retained = core.retained := by
  rw [answerGetResult]
  cases core.completedResults.items.find? (fun entry => decide (entry.goalId = goalId)) with
  | some entry =>
    have kept := @replyGetResult_keeps goalBuf resultBuf maxGoals core sequenceNumber entry.status
      entry.len (slice core.resultSlab entry.offset entry.len)
    dsimp only [replyGetResultFromSlab]
    split
    case h_1 sent =>
      rw [sent] at kept
      exact kept
    case h_2 core' sent =>
      rw [sent] at kept
      rw [← kept]
      exact map_updateFirst _
        (fun entry : CompletedResultEntry => { entry with delivered := true })
        CompletedResultEntry.goalId (fun _ => rfl) _
  | none =>
    dsimp only
    split
    · split <;> rfl
    · have kept := @replyGetResult_keeps goalBuf resultBuf maxGoals core sequenceNumber .unknown
        defaultResultCdr.length defaultResultCdr
      dsimp only [replyGetResultBytes]
      split
      case h_1 sent =>
        rw [sent] at kept
        exact kept
      case h_2 sent =>
        rw [sent] at kept
        exact kept

theorem tryHandleGetResultRaw_quiet (holds : core.Holds history)
    (cancel : core.cancelBuffer.length = cancelBuf) (take : Take goalBuf)
    (defaultResultCdr : List UInt8) :
    Quiet core (core.tryHandleGetResultRaw take defaultResultCdr).2 history where
  places := by
    rcases core.tryHandleGetResultRaw_frame take defaultResultCdr with ⟨_, _, _, _, framed⟩
    rw [framed]
    rfl
  retained := by
    rcases core.tryHandleGetResultRaw_cases take defaultResultCdr with
      ⟨goalId, sequenceNumber, _, answered⟩ | ⟨result, _, nothing⟩
    · rw [answered, answerGetResult_keeps]
      exact List.Subset.refl _
    · rw [nothing]
      exact List.Subset.refl _
  holds := tryHandleGetResultRaw_holds holds take defaultResultCdr
  cancel := by
    rcases core.tryHandleGetResultRaw_frame take defaultResultCdr with ⟨_, _, _, _, framed⟩
    rw [framed]
    exact cancel

theorem setCanceling_places (canceling : List Bool) :
    (core.setCanceling canceling).places = core.places := by
  rw [places, setCanceling, List.map_map]
  calc core.activeGoals.items.zipIdx.map _
      = core.activeGoals.items.zipIdx.map ((fun g => (g.goalId, g.stamp)) ∘ Prod.fst) := by
          apply List.map_congr_left
          intro item _
          simp only [Function.comp_apply]
          split <;> rfl
    _ = core.places := by rw [← List.map_map, List.zipIdx_map_fst, places]

theorem cancelReply_frame {returnCode : CancelResponseCode} {canceling : List Bool}
    {reply : Nat × ActionServerCore goalBuf resultBuf maxGoals}
    (written : core.cancelReply returnCode canceling = .ok reply) :
    ∃ buf, reply.2 = { core with goalBuffer := buf } := by
  simp only [cancelReply, bind, Except.bind, pure, Except.pure] at written
  repeat' split at written
  all_goals cases written
  exact ⟨_, rfl⟩

theorem acceptGoal_starts (core : ActionServerCore goalBuf resultBuf maxGoals)
    (goalId : GoalUuid) (seq : Int64) (stamp : Time) (room : 16 ≤ core.cancelBuffer.length) :
    let out := core.acceptGoal goalId seq stamp
    out.2.cancelBuffer.length = core.cancelBuffer.length ∧
      match out.1 with
      | .error _ => out.2.activeGoals.items = core.activeGoals.items
      | .ok _ =>
        (core.activeGoals.len < maxGoals →
          out.2.activeGoals.items = core.activeGoals.items ++ [⟨goalId, .accepted, stamp⟩]) ∧
        (¬ core.activeGoals.len < maxGoals → out.2.activeGoals.items = core.activeGoals.items) := by
  rcases core.acceptGoal_answered goalId seq stamp room with ⟨answered, ok, length⟩
  refine ⟨length, ?_⟩
  split
  case h_1 e failed =>
    rw [failed] at ok
    rw [← ok] at answered
    exact answered.2
  case h_2 taken =>
    rw [taken] at ok
    rw [← ok] at answered
    constructor
    · intro space
      rw [decide_eq_true space] at answered
      exact answered.2
    · intro full
      rw [decide_eq_false full] at answered
      exact answered.2

section

variable (holds : core.Holds history)
include holds

theorem dropCompletedResult_retained (goalId : GoalUuid) :
    (core.dropCompletedResult goalId).2.retained ⊆ core.retained := by
  rw [dropCompletedResult]
  split
  case h_1 idx _ =>
    have fewer := List.eraseIdx_sublist core.completedResults.items idx
    rw [(compactResultSlab_holds holds (core.completedResults.remove idx) fewer).2]
    exact (fewer.map _).subset
  case h_2 => exact List.Subset.refl _

theorem storeResult_retained (c : Completion) :
    (core.storeResult c.goalId c.status c.resultCdr).2.retained ⊆ c.goalId :: core.retained := by
  rcases reserveResultSpace_holds c.resultCdr.length holds with ⟨_, fewer, _, ready⟩
  have kept := List.Subset.trans fewer.subset (List.subset_cons_self c.goalId core.retained)
  simp only [storeResult]
  rcases reserved : core.reserveResultSpace c.resultCdr.length with ⟨_ | _, core'⟩
  · rw [reserved] at kept
    exact kept
  · rw [reserved] at kept ready
    rcases core'.completedResults.push_of_room
      ⟨c.goalId, c.status, core'.resultSlabUsed, c.resultCdr.length, false⟩ (ready rfl).1 with
      ⟨completed, pushed, items⟩
    simp only [retained, pushed, Option.getD_some, items, List.map_append, List.map_singleton]
    exact List.append_subset.mpr ⟨kept, by simp⟩

theorem completeGoalRaw_retained (c : Completion) :
    (core.completeGoalRaw c.goalId c.status c.resultCdr).2.retained ⊆
      c.goalId :: core.retained := by
  rcases core.removeActiveGoal_frame c.goalId with ⟨active, ended⟩
  have started : (core.removeActiveGoal c.goalId).Holds history := by
    rw [ended]
    exact holds
  have same : (core.removeActiveGoal c.goalId).retained = core.retained := by
    rw [ended]
    rfl
  have dropped := dropCompletedResult_retained started c.goalId
  have stored := storeResult_retained (dropCompletedResult_holds started c.goalId).1 c
  rw [same] at dropped
  rw [completeGoalRaw]
  dsimp only
  rw [flushWaiters_retained]
  exact List.Subset.trans stored (List.cons_subset_cons _ dropped)

theorem completeGoalRaw_active (c : Completion) :
    (core.completeGoalRaw c.goalId c.status c.resultCdr).2.activeGoals =
        (core.removeActiveGoal c.goalId).activeGoals ∧
      (core.completeGoalRaw c.goalId c.status c.resultCdr).2.cancelBuffer = core.cancelBuffer := by
  rcases completeGoalRaw_frame holds c with ⟨_, _, _, _, _, _, framed⟩
  rcases core.removeActiveGoal_frame c.goalId with ⟨_, removed⟩
  rw [framed, removed]
  exact ⟨rfl, rfl⟩

end

end ActionServerCore

namespace CancelServer

variable {goalBuf resultBuf maxGoals : Nat} {σ : Type} {history : List Completion}

variable (server : CancelServer goalBuf resultBuf maxGoals)

variable (cancelHandler : σ → GoalUuid → GoalStatusCode → CancelResponse × σ)

theorem answerCancel_quiet (goalId : GoalUuid) (requestStamp : Time) (sequenceNumber : Int64)
    (s : σ) (holds : server.core.Holds history)
    (cancel : server.core.cancelBuffer.length = cancelBuf) :
    server.core.Quiet (server.answerCancel cancelHandler goalId requestStamp sequenceNumber
      s).2.1.core history := by
  have table (canceling : List Bool) (buf : List UInt8) : server.core.Quiet
      { server.core.setCanceling canceling with goalBuffer := buf } history :=
    ⟨ActionServerCore.setCanceling_places canceling, List.Subset.refl _, holds, cancel⟩
  simp only [answerCancel]
  split
  case h_1 => exact table _ _
  case h_2 written =>
    rcases ActionServerCore.cancelReply_frame written with ⟨buf, framed⟩
    dsimp only at framed
    subst framed
    split
    · exact table _ _
    · exact table _ _

theorem tryHandleCancel_quiet (take : Take cancelBuf) (s : σ) (holds : server.core.Holds history) :
    server.core.Quiet (server.tryHandleCancel cancelHandler take s).2.1.core history := by
  have taken : server.core.Quiet (server.takeRequest take).core history :=
    ⟨rfl, List.Subset.refl _, holds, take.sized⟩
  simp only [tryHandleCancel]
  split
  case h_1 => exact taken
  case h_2 => exact taken
  case h_3 request _ =>
    split
    case h_1 => exact taken
    case h_2 goalId requestStamp _ =>
      have answered := (server.takeRequest take).answerCancel_quiet cancelHandler goalId
        requestStamp request.sequenceNumber s holds take.sized
      exact ⟨answered.places, answered.retained, answered.holds, answered.cancel⟩

end CancelServer

namespace TypedServer

variable {γ ρ σ : Type} {goalBuf resultBuf maxGoals : Nat} {history : List Completion}
  (server : TypedServer γ ρ goalBuf resultBuf maxGoals)

/-- The goal that a request brings, and the id it is sent under. -/
def broughtGoal (deserialize : CdrReader → Option γ) (take : Take goalBuf) :
    Option (GoalUuid × γ) :=
  match (server.core.tryRecvGoalRequest take).1 with
  | .ok (some rawReq) =>
    (decodeGoal deserialize take.buf rawReq).toOption.map fun goal => (rawReq.goalId, goal)
  | _ => none

/-- Either a goal goes to the end of both tables, or both stay as they are: a table that is full
takes neither. -/
theorem tryAcceptGoal_cases (deserialize : CdrReader → Option γ)
    (goalHandler : GoalUuid → γ → GoalResponse) (take : Take goalBuf) (stamp : Time)
    (holds : server.core.Holds history) (cancel : server.core.cancelBuffer.length = cancelBuf)
    (same : server.typedGoals.len = server.core.activeGoals.len) :
    let out := (server.tryAcceptGoal deserialize goalHandler take stamp).2
    out.completedGoals = server.completedGoals ∧ out.core.Holds history ∧
      out.core.cancelBuffer.length = cancelBuf ∧ out.core.retained = server.core.retained ∧
      (out.core.activeGoals.items = server.core.activeGoals.items ∧
          out.typedGoals = server.typedGoals ∨
        ∃ goalId goal, server.broughtGoal deserialize take = some (goalId, goal) ∧
          out.core.activeGoals.items =
            server.core.activeGoals.items ++ [⟨goalId, .accepted, stamp⟩] ∧
          out.typedGoals.items = server.typedGoals.items ++ [goal]) := by
  refine ⟨rfl, ?_⟩
  have room : 16 ≤ (server.core.takeRequest take).cancelBuffer.length := by
    change 16 ≤ server.core.cancelBuffer.length
    rw [cancel]
    decide
  have framed := server.core.tryRecvGoalRequest_frame take
  rcases received : server.core.tryRecvGoalRequest take with ⟨_ | _ | rawReq, core⟩
  · rw [received] at framed
    simp only [tryAcceptGoal, ActionServer.tryAcceptGoal, received]
    subst framed
    exact ⟨holds, cancel, rfl, .inl ⟨rfl, trivial⟩⟩
  · rw [received] at framed
    simp only [tryAcceptGoal, ActionServer.tryAcceptGoal, received]
    subst framed
    exact ⟨holds, cancel, rfl, .inl ⟨rfl, trivial⟩⟩
  · rw [received] at framed
    dsimp only at framed
    subst framed
    have buffer : (server.core.takeRequest take).goalBuffer = take.buf := rfl
    simp only [tryAcceptGoal, ActionServer.tryAcceptGoal, received, buffer]
    cases decoded : decodeGoal deserialize take.buf rawReq with
    | error e => exact ⟨holds, cancel, rfl, .inl ⟨rfl, rfl⟩⟩
    | ok goal =>
      have brought : server.broughtGoal deserialize take = some (rawReq.goalId, goal) := by
        rw [broughtGoal, received]
        dsimp only
        rw [decoded]
        rfl
      dsimp only
      by_cases accepts : (goalHandler rawReq.goalId goal).isAccepted = true
      · rw [if_pos accepts]
        have started := (server.core.takeRequest take).acceptGoal_starts rawReq.goalId
          rawReq.sequenceNumber stamp room
        have taken : (server.core.takeRequest take).Holds history := holds
        have kept := ActionServerCore.acceptGoal_keeps taken rawReq.goalId
          rawReq.sequenceNumber stamp
        rcases answered : (server.core.takeRequest take).acceptGoal rawReq.goalId
          rawReq.sequenceNumber stamp with ⟨_ | _, core⟩
        · rw [answered] at kept started
          exact ⟨kept.1, started.1.trans cancel, kept.2, .inl ⟨started.2, rfl⟩⟩
        · rw [answered] at kept started
          refine ⟨kept.1, started.1.trans cancel, kept.2, ?_⟩
          by_cases space : server.core.activeGoals.len < maxGoals
          · rcases server.typedGoals.push_of_room goal (same ▸ space) with
              ⟨typedGoals, pushed, items⟩
            rw [pushed]
            exact .inr ⟨rawReq.goalId, goal, brought, started.2.1 space, items⟩
          · have full : server.typedGoals.push goal = none := by
              rw [BoundedVec.push, dif_neg]
              change ¬ server.typedGoals.len < maxGoals
              rwa [same]
            rw [full]
            exact .inl ⟨started.2.2 space, rfl⟩
      · rw [if_neg accepts]
        have taken : (server.core.takeRequest take).Holds history := holds
        have kept := ActionServerCore.rejectGoal_keeps taken rawReq.sequenceNumber
        have sized := ((server.core.takeRequest take).rejectGoal_answered rawReq.goalId
          rawReq.sequenceNumber stamp room).2.2
        rcases answered : (server.core.takeRequest take).rejectGoal rawReq.sequenceNumber with
          ⟨_ | _, core⟩
        · rw [answered] at kept sized
          exact ⟨kept.1, sized.trans cancel, kept.2.2, .inl ⟨kept.2.1, rfl⟩⟩
        · rw [answered] at kept sized
          exact ⟨kept.1, sized.trans cancel, kept.2.2, .inl ⟨kept.2.1, rfl⟩⟩

end TypedServer

end NanoRos
