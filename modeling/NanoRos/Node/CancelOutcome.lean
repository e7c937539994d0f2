import NanoRos.Node.CancelReply

/-! What comes of a `CancelGoal` request: the goals, the handler and the client where it is
answered, and the goals where it is not. -/

namespace NanoRos

open Memory

/-- `STATUS_ARRAY_FITS`: what the build checks of `MAX_GOALS`. -/
def statusArrayFits (maxGoals : Nat) : Prop :=
  (if 2 * maxGoals = 0 then 8 else 8 + 28 * (2 * maxGoals - 1) + 25) ≤ 512

instance (maxGoals : Nat) : Decidable (statusArrayFits maxGoals) :=
  inferInstanceAs (Decidable (_ ≤ _))

namespace CancelServer

variable {goalBuf resultBuf maxGoals : Nat} {σ : Type}
  (server : CancelServer goalBuf resultBuf maxGoals)
  (cancelHandler : σ → GoalUuid → GoalStatusCode → CancelResponse × σ)

/-- The goals a request makes canceling. -/
def canceled (goalId : GoalUuid) (requestStamp : Time) (s : σ) : List RawActiveGoal :=
  (server.core.consulted cancelHandler goalId requestStamp s).1.map Prod.fst

def reply (goalId : GoalUuid) (requestStamp : Time) (s : σ) : List UInt8 :=
  let goals := server.canceled cancelHandler goalId requestStamp s
  cancelReplyBytes ((server.core.selectCancelGoals goalId requestStamp).2.getD
      (if goals = [] then .rejected else .ok))
    (UInt32.ofNat goals.length) goals

/-- The table after a request, whether or not it could be answered. -/
def table (goalId : GoalUuid) (requestStamp : Time) (s : σ) : List RawActiveGoal :=
  (server.core.setCanceling (raise (List.replicate maxGoals false)
    ((server.core.consulted cancelHandler goalId requestStamp s).1.map Prod.snd))).activeGoals.items

/-- The handler is asked and the table changed before it is known whether the reply fits and the
backend takes it. -/
theorem answerCancel_cases (goalId : GoalUuid) (requestStamp : Time) (sequenceNumber : Int64)
    (s : σ) :
    let out := server.answerCancel cancelHandler goalId requestStamp sequenceNumber s
    out.2.2 = (server.core.consulted cancelHandler goalId requestStamp s).2 ∧
    out.2.1.core.activeGoals.items = server.table cancelHandler goalId requestStamp s ∧
    if (server.reply cancelHandler goalId requestStamp s).length ≤ server.core.goalBuffer.length ∧
        server.cancelGoalServer.accepts server.cancelGoalServer.calls = true then
      out.1 = .ok (some (goalId,
        if server.canceled cancelHandler goalId requestStamp s = [] then .reject else .accept)) ∧
      out.2.1.cancelGoalServer.sent = server.cancelGoalServer.sent ++
        [(sequenceNumber, server.reply cancelHandler goalId requestStamp s)]
    else ∃ e, out.1 = .error e := by
  have sub : (server.core.consulted cancelHandler goalId requestStamp s).1.Sublist
      server.core.activeGoals.items.zipIdx := ActionServerCore.consulted_sublist cancelHandler s
  have any : (!(server.core.consulted cancelHandler goalId requestStamp s).1.isEmpty) =
      decide (server.canceled cancelHandler goalId requestStamp s ≠ []) := by
    rw [canceled]
    cases (server.core.consulted cancelHandler goalId requestStamp s).1 <;> simp
  have bytes : server.reply cancelHandler goalId requestStamp s = cancelReplyBytes
      ((server.core.selectCancelGoals goalId requestStamp).2.getD
        (if server.canceled cancelHandler goalId requestStamp s = [] then .rejected else .ok))
      (UInt32.ofNat (server.core.consulted cancelHandler goalId requestStamp s).1.length)
      ((server.core.consulted cancelHandler goalId requestStamp s).1.map Prod.fst) := by
    rw [reply, canceled, List.length_map]
  have written := ActionServerCore.cancelReply_eq _ sub rfl bytes
  have code : (if decide (server.canceled cancelHandler goalId requestStamp s ≠ []) = true then
      CancelResponseCode.ok else .rejected) =
      if server.canceled cancelHandler goalId requestStamp s = [] then .rejected else .ok := by
    simp
  simp only [answerCancel, ActionServerCore.askHandler_eq, any, code]
  by_cases room : (server.reply cancelHandler goalId requestStamp s).length ≤
      server.core.goalBuffer.length
  · rw [if_pos room] at written
    have whole := take_overwrite server.core.goalBuffer 0
      (server.reply cancelHandler goalId requestStamp s) (Nat.zero_le _)
    rw [List.take_zero, List.nil_append, Nat.zero_add] at whole
    rw [written]
    dsimp only
    rw [whole]
    by_cases takes : server.cancelGoalServer.accepts server.cancelGoalServer.calls = true
    · have sent := And.intro room takes
      rw [if_pos sent, ServiceServer.sendResponse, if_pos takes]
      refine ⟨rfl, rfl, ?_, rfl⟩
      simp
    · rw [if_neg (mt And.right takes), ServiceServer.sendResponse, if_neg takes]
      exact ⟨rfl, rfl, _, rfl⟩
  · rw [if_neg room] at written
    rcases written with ⟨e, failed⟩
    rw [failed, if_neg (mt And.left room)]
    exact ⟨rfl, rfl, e, rfl⟩

variable {take : Take cancelBuf} {goalId : GoalUuid} {requestStamp : Time}

/-- A request that could be read is answered; taking it changed nothing that the answer looks at. -/
theorem tryHandleCancel_cases {request : ServiceRequest cancelBuf} (s : σ)
    (taken : received take.outcome = .ok (some request))
    (named : cancelRequest take.buf request = .ok (goalId, requestStamp)) :
    let out := server.tryHandleCancel cancelHandler take s
    out.2.2 = (server.core.consulted cancelHandler goalId requestStamp s).2 ∧
    out.2.1.core.activeGoals.items = server.table cancelHandler goalId requestStamp s ∧
    if (server.reply cancelHandler goalId requestStamp s).length ≤ server.core.goalBuffer.length ∧
        server.cancelGoalServer.accepts server.cancelGoalServer.calls = true then
      out.1 = .ok (some (goalId,
        if server.canceled cancelHandler goalId requestStamp s = [] then .reject else .accept)) ∧
      out.2.1.cancelGoalServer.sent = server.cancelGoalServer.sent ++
        [(request.sequenceNumber, server.reply cancelHandler goalId requestStamp s)]
    else ∃ e, out.1 = .error e := by
  have read : cancelRequest (server.takeRequest take).core.cancelBuffer request =
      .ok (goalId, requestStamp) := named
  have whole : server.tryHandleCancel cancelHandler take s = (server.takeRequest take).answerCancel
      cancelHandler goalId requestStamp request.sequenceNumber s := by
    rw [tryHandleCancel]
    simp only [taken, read]
  rw [whole]
  exact (server.takeRequest take).answerCancel_cases cancelHandler goalId requestStamp
    request.sequenceNumber s

theorem tryHandleCancel_ok {request : ServiceRequest cancelBuf} {s : σ}
    (taken : received take.outcome = .ok (some request))
    (named : cancelRequest take.buf request = .ok (goalId, requestStamp))
    {answer : Option (GoalUuid × CancelResponse)}
    (ok : (server.tryHandleCancel cancelHandler take s).1 = .ok answer) :
    answer = some (goalId,
      if server.canceled cancelHandler goalId requestStamp s = [] then .reject else .accept) ∧
    (server.tryHandleCancel cancelHandler take s).2.1.cancelGoalServer.sent =
      server.cancelGoalServer.sent ++
        [(request.sequenceNumber, server.reply cancelHandler goalId requestStamp s)] := by
  have outcome := (server.tryHandleCancel_cases cancelHandler s taken named).2.2
  split at outcome
  case isTrue =>
    rw [outcome.1] at ok
    cases ok
    exact ⟨rfl, outcome.2⟩
  case isFalse =>
    rcases outcome with ⟨e, failed⟩
    rw [failed] at ok
    cases ok

theorem tryHandleCancel_unnamed (s : σ)
    (unnamed : ∀ request goalId requestStamp, received take.outcome = .ok (some request) →
      cancelRequest take.buf request ≠ .ok (goalId, requestStamp)) :
    (server.tryHandleCancel cancelHandler take s).2.1.core.activeGoals.items =
      server.core.activeGoals.items := by
  rw [tryHandleCancel]
  rcases taken : received take.outcome with e | _ | request
  · rfl
  · rfl
  · dsimp only
    cases read : cancelRequest (server.takeRequest take).core.cancelBuffer request with
    | error e => rfl
    | ok named => exact absurd read (unnamed request named.1 named.2 taken)

theorem consulted_unknown (requestStamp : Time) (s : σ)
    (other : goalId.uuid ≠ Vector.replicate 16 0)
    (absent : ∀ g ∈ server.core.activeGoals.items, g.goalId ≠ goalId) :
    server.core.consulted cancelHandler goalId requestStamp s = ([], s) := by
  have unknown : server.core.selectCancelGoals goalId requestStamp = _ :=
    ActionServerCore.selectCancelGoals_unknown other absent
  have nobody : server.core.selectedGoals goalId requestStamp = [] := by
    rw [ActionServerCore.selectedGoals, unknown, flagged, List.filter_eq_nil_iff]
    intro item _
    rw [getD_lowered]
    exact Bool.false_ne_true
  rw [ActionServerCore.consulted, nobody, consult]

theorem consult_wanted (s : σ)
    (distinct : (server.core.activeGoals.items.map RawActiveGoal.goalId).Nodup)
    (known : goalId.uuid ≠ Vector.replicate 16 0 →
      ∃ g ∈ server.core.activeGoals.items, g.goalId = goalId) :
    consult (ActionServerCore.asks cancelHandler)
        (server.core.activeGoals.items.filter fun g => decide (Wants goalId requestStamp g)) s =
      (server.canceled cancelHandler goalId requestStamp s,
        (server.core.consulted cancelHandler goalId requestStamp s).2) := by
  rw [← ActionServerCore.selectedGoals_eq distinct known, consult_map]
  rfl

theorem length_canceled_lt (compiled : statusArrayFits maxGoals) (goalId : GoalUuid)
    (requestStamp : Time) (s : σ) :
    (server.canceled cancelHandler goalId requestStamp s).length < 2 ^ 32 := by
  have sub : (server.core.consulted cancelHandler goalId requestStamp s).1.Sublist
      server.core.activeGoals.items.zipIdx := ActionServerCore.consulted_sublist cancelHandler s
  have less := sub.length_le
  have room := server.core.activeGoals.fits
  rw [List.length_zipIdx] at less
  rw [canceled, List.length_map]
  rw [statusArrayFits] at compiled
  split at compiled <;> omega

theorem length_reply (goalId : GoalUuid) (requestStamp : Time) (s : σ) :
    (server.reply cancelHandler goalId requestStamp s).length = cancelGoalsOffset +
      (server.canceled cancelHandler goalId requestStamp s).length * goalInfoLen :=
  length_cancelReplyBytes _ _ _

theorem table_of_nothing {s : σ}
    (none_ : server.canceled cancelHandler goalId requestStamp s = []) :
    server.table cancelHandler goalId requestStamp s = server.core.activeGoals.items := by
  have nothing : (server.core.consulted cancelHandler goalId requestStamp s).1 = [] :=
    List.map_eq_nil_iff.mp none_
  have lowered : ∀ i, (raise (List.replicate maxGoals false) []).getD i false = false :=
    getD_lowered maxGoals
  simp only [table, ActionServerCore.setCanceling, nothing, List.map_nil, lowered,
    Bool.false_eq_true, if_false]
  exact List.zipIdx_map_fst 0 _

theorem table_eq (distinct : (server.core.activeGoals.items.map RawActiveGoal.goalId).Nodup)
    (goalId : GoalUuid) (requestStamp : Time) (s : σ) :
    server.table cancelHandler goalId requestStamp s = server.core.activeGoals.items.map fun g =>
      if g ∈ server.canceled cancelHandler goalId requestStamp s then
        { g with status := .canceling } else g := by
  have sub : (server.core.consulted cancelHandler goalId requestStamp s).1.Sublist
      server.core.activeGoals.items.zipIdx := ActionServerCore.consulted_sublist cancelHandler s
  have picked := flagged_raise sub server.core.activeGoals.fits
  have inPlace : server.core.activeGoals.items.map (fun g =>
      if g ∈ server.canceled cancelHandler goalId requestStamp s then
        { g with status := GoalStatusCode.canceling } else g) =
      server.core.activeGoals.items.zipIdx.map fun item =>
        if item.1 ∈ server.canceled cancelHandler goalId requestStamp s then
          { item.1 with status := GoalStatusCode.canceling } else item.1 := by
    conv_lhs => rw [← List.zipIdx_map_fst 0 server.core.activeGoals.items, List.map_map]
    rfl
  rw [inPlace, table, ActionServerCore.setCanceling]
  apply List.map_congr_left
  intro item member
  have flag : (raise (List.replicate maxGoals false) ((server.core.consulted cancelHandler goalId
      requestStamp s).1.map Prod.snd)).getD item.2 false = true ↔
      item.1 ∈ server.canceled cancelHandler goalId requestStamp s := by
    constructor
    · intro raised
      have listed : item ∈ flagged _ server.core.activeGoals.items :=
        List.mem_filter.mpr ⟨member, raised⟩
      rw [picked] at listed
      exact List.mem_map_of_mem listed
    · intro listed
      rcases List.mem_map.mp listed with ⟨other, chosen, same⟩
      have one := eq_of_key RawActiveGoal.goalId distinct (sub.subset chosen) member (by rw [same])
      rw [one, ← picked] at chosen
      exact (List.mem_filter.mp chosen).2
  simp only [flag]

theorem statuses_kept_iff (goalId : GoalUuid) (requestStamp : Time) (s : σ) :
    (server.table cancelHandler goalId requestStamp s).map RawActiveGoal.status =
      server.core.activeGoals.items.map RawActiveGoal.status ↔
    server.canceled cancelHandler goalId requestStamp s = [] := by
  have sub : (server.core.consulted cancelHandler goalId requestStamp s).1.Sublist
      server.core.activeGoals.items.zipIdx := ActionServerCore.consulted_sublist cancelHandler s
  constructor
  · intro kept
    rw [canceled, List.map_eq_nil_iff, List.eq_nil_iff_forall_not_mem]
    intro item member
    have still := ActionServerCore.cancelable_of_selected ((consult_sublist _ _ s).subset member)
    have here := List.mem_zipIdx_iff_getElem?.mp (sub.subset member)
    have there : item ∈ flagged (raise (List.replicate maxGoals false)
        ((server.core.consulted cancelHandler goalId requestStamp s).1.map Prod.snd))
        server.core.activeGoals.items := by
      rwa [flagged_raise sub server.core.activeGoals.fits]
    have raised := (List.mem_filter.mp there).2
    have same := congrArg (·[item.2]?) kept
    simp only [table, ActionServerCore.setCanceling, List.getElem?_map, List.getElem?_zipIdx, here,
      Option.map_some, Nat.zero_add, raised, if_true, Option.some.injEq] at same
    rw [← same] at still
    cases still
  · intro none_
    rw [server.table_of_nothing cancelHandler none_]

def cancelAll : Take cancelBuf where
  buf := cdrLeHeader ++ List.replicate 252 0
  sized := by
    rw [List.length_append, List.length_replicate]
    rfl
  outcome := .ok (some ⟨0, 28, by decide, 7⟩)

/-- A server with one goal, accepted at 3 s and executing. -/
def executing (goalBuf : Nat) (takesReplies : Bool) : CancelServer goalBuf 16 2 where
  core := ((ActionServerCore.fromChannels ⟨fun _ => true, 0, []⟩ ⟨fun _ => true, 0, []⟩).acceptGoal
    (counterGoalId 1) 1 ⟨3, 0⟩).2.setGoalStatus (counterGoalId 1) .executing
  cancelGoalServer := ⟨fun _ => takesReplies, 0, []⟩

/-- A handler that counts what it is asked and gives every goal up. -/
def givesUp (asked : Nat) (_ : GoalUuid) (_ : GoalStatusCode) : CancelResponse × Nat :=
  (.accept, asked + 1)

/-- A failure leaves the goals alone exactly where the handler cancels none of them, or the reply
that lists those it cancels fits and is taken. -/
theorem failed_cancel_keeps_iff (take : Take cancelBuf) (s : σ)
    (sized : server.core.goalBuffer.length = goalBuf) :
    (∀ e, (server.tryHandleCancel cancelHandler take s).1 = .error e →
      (server.tryHandleCancel cancelHandler take s).2.1.core.activeGoals.items.map
          RawActiveGoal.status = server.core.activeGoals.items.map RawActiveGoal.status) ↔
    ∀ request goalId requestStamp, received take.outcome = .ok (some request) →
      cancelRequest take.buf request = .ok (goalId, requestStamp) →
      server.canceled cancelHandler goalId requestStamp s = [] ∨ cancelGoalsOffset +
            (server.canceled cancelHandler goalId requestStamp s).length * goalInfoLen ≤ goalBuf ∧
          server.cancelGoalServer.accepts server.cancelGoalServer.calls = true := by
  by_cases some_ : ∃ request goalId requestStamp, received take.outcome = .ok (some request) ∧
      cancelRequest take.buf request = .ok (goalId, requestStamp)
  · rcases some_ with ⟨request, goalId, requestStamp, taken, named⟩
    have only : (∀ request' goalId' requestStamp', received take.outcome = .ok (some request') →
        cancelRequest take.buf request' = .ok (goalId', requestStamp') →
        server.canceled cancelHandler goalId' requestStamp' s = [] ∨ cancelGoalsOffset +
              (server.canceled cancelHandler goalId' requestStamp' s).length * goalInfoLen ≤
                goalBuf ∧
            server.cancelGoalServer.accepts server.cancelGoalServer.calls = true) ↔
        (server.canceled cancelHandler goalId requestStamp s = [] ∨ cancelGoalsOffset +
              (server.canceled cancelHandler goalId requestStamp s).length * goalInfoLen ≤ goalBuf ∧
            server.cancelGoalServer.accepts server.cancelGoalServer.calls = true) := by
      constructor
      · exact fun all => all request goalId requestStamp taken named
      · intro this request' goalId' requestStamp' taken' named'
        rw [taken] at taken'
        cases taken'
        rw [named] at named'
        cases named'
        exact this
    rw [only, ← server.length_reply, ← server.statuses_kept_iff]
    rcases server.tryHandleCancel_cases cancelHandler s taken named with ⟨-, table, outcome⟩
    rw [sized] at outcome
    rw [table]
    split at outcome
    case isTrue sent =>
      rw [outcome.1]
      exact iff_of_true nofun (Or.inr sent)
    case isFalse lost =>
      rcases outcome with ⟨e, failed⟩
      rw [failed, or_iff_left lost]
      exact ⟨fun kept => kept e rfl, fun kept _ _ => kept⟩
  · have unnamed : ∀ request goalId requestStamp, received take.outcome = .ok (some request) →
        cancelRequest take.buf request ≠ .ok (goalId, requestStamp) :=
      fun request goalId requestStamp taken named =>
        some_ ⟨request, goalId, requestStamp, taken, named⟩
    rw [server.tryHandleCancel_unnamed cancelHandler s unnamed]
    exact iff_of_true (fun _ _ => rfl) fun request goalId requestStamp taken named =>
      absurd named (unnamed request goalId requestStamp taken)

theorem failed_cancel_keeps_one_goal : (executing 36 true).core.goalBuffer.length = 36 ∧
    ∀ e, ((executing 36 true).tryHandleCancel givesUp cancelAll 0).1 = .error e →
      ((executing 36 true).tryHandleCancel givesUp cancelAll 0).2.1.core.activeGoals.items.map
        RawActiveGoal.status = (executing 36 true).core.activeGoals.items.map
          RawActiveGoal.status := by
  refine ⟨by decide +kernel,
    (failed_cancel_keeps_iff _ givesUp cancelAll 0 (by decide +kernel)).mpr ?_⟩
  intro request goalId requestStamp taken named
  rw [show received cancelAll.outcome = .ok (some ⟨0, 28, by decide, 7⟩) from rfl] at taken
  cases taken
  rw [show cancelRequest cancelAll.buf _ = .ok (⟨Vector.replicate 16 0⟩, ⟨0, 0⟩) from by
    decide +kernel] at named
  cases named
  exact Or.inr ⟨by decide +kernel, rfl⟩

/-- Four bytes less, or a backend that refuses the reply: nobody hears of the canceling goal. -/
theorem failed_cancel_leaves_canceling :
    ((executing 32 true).tryHandleCancel givesUp cancelAll 0).1 = .error .serialization ∧
    ((executing 32 true).tryHandleCancel givesUp cancelAll 0).2.1.core.activeGoals.items.map
      RawActiveGoal.status = [.canceling] ∧
    (executing 32 true).core.activeGoals.items.map RawActiveGoal.status = [.executing] ∧
    ((executing 64 false).tryHandleCancel givesUp cancelAll 0).1 = .error .serviceReplyFailed ∧
    ((executing 64 false).tryHandleCancel givesUp cancelAll 0).2.1.core.activeGoals.items.map
      RawActiveGoal.status = [.canceling] := by
  refine ⟨?_, ?_, ?_, ?_, ?_⟩ <;> decide +kernel

/-- A cancel request is about the goals that `action_msgs` says, each of them is put to the handler
once, and the client reads which of them the handler gave up. A goal that was canceling before
stays so. -/
theorem cancel_selects (compiled : statusArrayFits maxGoals)
    (distinct : (server.core.activeGoals.items.map RawActiveGoal.goalId).Nodup)
    (take : Take cancelBuf) (s : σ) (request : ServiceRequest cancelBuf) (goalId : GoalUuid)
    (requestStamp : Time) (taken : received take.outcome = .ok (some request))
    (named : cancelRequest take.buf request = .ok (goalId, requestStamp)) :
    let out := server.tryHandleCancel cancelHandler take s
    let wanted := server.core.activeGoals.items.filter fun g =>
      decide (Wants goalId requestStamp g)
    let accepted := (consult (ActionServerCore.asks cancelHandler) wanted s).1
    let after := out.2.1.core.activeGoals.items
    ((goalId.uuid ≠ Vector.replicate 16 0 ∧
        ∀ g ∈ server.core.activeGoals.items, g.goalId ≠ goalId) →
      out.2.2 = s ∧ after = server.core.activeGoals.items ∧
      ∀ answer, out.1 = .ok answer → answer = some (goalId, .reject) ∧
        ∃ reply, out.2.1.cancelGoalServer.sent =
            server.cancelGoalServer.sent ++ [(request.sequenceNumber, reply)] ∧
          cancelReturnCode reply = some (CancelResponseCode.toI8
            (if ∃ c ∈ server.core.completedResults.items, c.goalId = goalId then .goalTerminated
              else .unknownGoal)) ∧
          cancelGoalsCount reply = some 0) ∧
    ((goalId.uuid ≠ Vector.replicate 16 0 →
        ∃ g ∈ server.core.activeGoals.items, g.goalId = goalId) →
      out.2.2 = (consult (ActionServerCore.asks cancelHandler) wanted s).2 ∧
      ∀ answer, out.1 = .ok answer →
        answer = some (goalId, if accepted = [] then .reject else .accept) ∧
        after = server.core.activeGoals.items.map (fun g =>
          if g ∈ accepted then { g with status := .canceling } else g) ∧
        ∃ reply, out.2.1.cancelGoalServer.sent =
            server.cancelGoalServer.sent ++ [(request.sequenceNumber, reply)] ∧
          cancelReturnCode reply = some (CancelResponseCode.toI8
            (if accepted = [] then .rejected else .ok)) ∧
          cancelGoalsCount reply = some accepted.length ∧ ∀ i, cancelGoalInfo reply i =
            accepted[i]?.map fun g => (g.goalId, g.stamp.sec, g.stamp.nanosec)) := by
  rcases server.tryHandleCancel_cases cancelHandler s taken named with ⟨asked, table, _⟩
  have decoded := cancelReply_decodes
    ((server.core.selectCancelGoals goalId requestStamp).2.getD
      (if server.canceled cancelHandler goalId requestStamp s = [] then .rejected else .ok))
    (server.canceled cancelHandler goalId requestStamp s)
    (server.length_canceled_lt cancelHandler compiled goalId requestStamp s) rfl
  constructor
  · rintro ⟨other, absent⟩
    have unknown : server.core.selectCancelGoals goalId requestStamp = _ :=
      ActionServerCore.selectCancelGoals_unknown other absent
    have nobody := server.consulted_unknown cancelHandler requestStamp s other absent
    have none_ : server.canceled cancelHandler goalId requestStamp s = [] := by
      rw [canceled, nobody, List.map_nil]
    rw [nobody] at asked
    rw [server.table_of_nothing cancelHandler none_] at table
    refine ⟨asked, table, ?_⟩
    intro answer ok
    rcases server.tryHandleCancel_ok cancelHandler taken named ok with ⟨said, sent⟩
    rw [if_pos none_] at said
    refine ⟨said, _, sent, ?_, ?_⟩
    · rw [unknown, Option.getD_some] at decoded
      rw [reply, unknown, Option.getD_some]
      exact decoded.1
    · rw [none_] at decoded
      rw [reply, none_]
      exact decoded.2.1
  · intro known
    rw [server.consult_wanted cancelHandler s distinct known]
    refine ⟨asked, ?_⟩
    intro answer ok
    rcases server.tryHandleCancel_ok cancelHandler taken named ok with ⟨said, sent⟩
    refine ⟨said, ?_, _, sent, ?_⟩
    · rw [← server.table_eq cancelHandler distinct goalId requestStamp s]
      exact table
    · rw [ActionServerCore.selectCancelGoals_known known, Option.getD_none] at decoded
      rw [reply, ActionServerCore.selectCancelGoals_known known, Option.getD_none]
      exact decoded

/-- Every goal is to be canceled, and there is one. -/
theorem cancel_selects_one : statusArrayFits 2 ∧
    ((executing 64 true).core.activeGoals.items.map RawActiveGoal.goalId).Nodup ∧
    ((executing 64 true).tryHandleCancel givesUp cancelAll 0).2.2 = 1 ∧
    ∃ reply, ((executing 64 true).tryHandleCancel givesUp cancelAll 0).2.1.cancelGoalServer.sent =
        [(7, reply)] ∧
      cancelReturnCode reply = some 0 ∧ cancelGoalsCount reply = some 1 ∧
      cancelGoalInfo reply 0 = some (counterGoalId 1, 3, 0) := by
  have selects := cancel_selects (executing 64 true) givesUp (by decide) (by decide +kernel)
    cancelAll 0 ⟨0, 28, by decide, 7⟩ ⟨Vector.replicate 16 0⟩ ⟨0, 0⟩ rfl (by decide +kernel)
  rcases selects.2 (absurd rfl) with ⟨asked, answered⟩
  have outcome : ((executing 64 true).tryHandleCancel givesUp cancelAll 0).1 =
      .ok (some (⟨Vector.replicate 16 0⟩, .accept)) := by decide +kernel
  rcases answered _ outcome with ⟨_, _, reply, sent, code, count, infos⟩
  refine ⟨by decide, by decide +kernel, asked.trans (by decide +kernel), reply, sent, ?_, ?_, ?_⟩
  · exact code.trans (by decide +kernel)
  · exact count.trans (by decide +kernel)
  · exact (infos 0).trans (by decide +kernel)

/-- The same request once more: the goal is canceling, and no handler was asked. -/
theorem cancel_selects_earlier_canceling :
    let before := ((executing 64 true).tryHandleCancel givesUp cancelAll 0).2.1
    let out := before.tryHandleCancel givesUp cancelAll 0
    (before.core.activeGoals.items.map RawActiveGoal.goalId).Nodup ∧
      out.1 = .ok (some (⟨Vector.replicate 16 0⟩, .reject)) ∧ out.2.2 = 0 ∧
      out.2.1.core.activeGoals.items = [⟨counterGoalId 1, .canceling, ⟨3, 0⟩⟩] := by
  refine ⟨?_, ?_, ?_, ?_⟩ <;> decide +kernel

end CancelServer

end NanoRos
