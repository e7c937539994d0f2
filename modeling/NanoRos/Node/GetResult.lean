import NanoRos.Node.ResultSlab
import NanoRos.Serdes.Layout

/-! The `get_result` service of an action server over its whole life. -/

namespace NanoRos

open Memory

/-- `[CDR header][status i8][pad to 4]`. -/
def getResultHeader (status : GoalStatusCode) : List UInt8 :=
  cdrLeHeader ++ ([status.toI8.toUInt8] ++ [0, 0, 0])

def getResultReply (status : GoalStatusCode) (bytes : List UInt8) : List UInt8 :=
  getResultHeader status ++ bytes

/-- Where the result starts in a reply. -/
def getResultPayloadOffset : Nat := 8

theorem length_getResultHeader (status : GoalStatusCode) :
    (getResultHeader status).length = getResultPayloadOffset := rfl

def Take.sequenceNumber {size : Nat} (take : Take size) : Option Int64 :=
  match take.outcome with
  | .ok (some request) => some request.sequenceNumber
  | _ => none

namespace ActionServerCore

variable {goalBuf resultBuf maxGoals : Nat}

/-- The writer behind the encapsulation header. -/
def replyWriter (buf : List UInt8) : CdrWriter := ⟨overwrite buf 0 cdrLeHeader, 4, 4, .xcdr1, false⟩

theorem length_replyWriter (buf : List UInt8) (room : 4 ≤ buf.length) :
    (replyWriter buf).buf.length = buf.length :=
  length_overwrite _ _ _ (by rw [Nat.zero_add]; exact room)

theorem replyWriter_ready (buf : List UInt8) (room : 4 ≤ buf.length) : (replyWriter buf).Ready where
  origin_le := Nat.le_refl _
  within := by
    rw [length_replyWriter buf room]
    exact room
  storing := rfl

theorem newWithHeader_eq_ok (buf : List UInt8) (room : 4 ≤ buf.length) :
    CdrWriter.newWithHeader buf = .ok (replyWriter buf) := by
  rw [CdrWriter.newWithHeader, if_neg (Nat.not_lt.mpr room)]
  rfl

theorem align_after_status (w : CdrWriter) (status : UInt8) (origin : w.pos = w.origin)
    (plain : w.version = .xcdr1) :
    (w.after [status]).align 4 = (w.after [status]).put [0, 0, 0] := by
  have offset : (w.after [status]).pos - (w.after [status]).origin = 1 := by
    rw [CdrWriter.after_pos, CdrWriter.after_origin, origin, List.length_singleton,
      Nat.add_sub_cancel_left]
  have cap : alignCap (w.after [status]).version 4 = 4 := by
    rw [CdrWriter.after_version, plain]
    rfl
  rw [CdrWriter.align, offset, cap]
  rfl

section

variable (core : ActionServerCore goalBuf resultBuf maxGoals)

theorem writeGetResultHeader_ok (status : GoalStatusCode)
    (room : getResultPayloadOffset ≤ core.goalBuffer.length) :
    core.writeGetResultHeader status = .ok (getResultPayloadOffset, { core with
      goalBuffer := overwrite core.goalBuffer 0 (getResultHeader status) }) := by
  rw [getResultPayloadOffset] at room
  have opened : 4 ≤ core.goalBuffer.length := by omega
  have ready := replyWriter_ready core.goalBuffer opened
  have length := length_replyWriter core.goalBuffer opened
  have first : (replyWriter core.goalBuffer).pos + [status.toI8.toUInt8].length ≤
      (replyWriter core.goalBuffer).buf.length := by
    rw [length]
    change 5 ≤ _
    omega
  have second : ((replyWriter core.goalBuffer).after [status.toI8.toUInt8]).pos +
      [(0 : UInt8), 0, 0].length ≤
      ((replyWriter core.goalBuffer).after [status.toI8.toUInt8]).buf.length := by
    rw [CdrWriter.after, length_overwrite _ _ _ first, length]
    change 8 ≤ _
    omega
  have joined : ((replyWriter core.goalBuffer).after ([status.toI8.toUInt8] ++ [0, 0, 0])).buf =
      overwrite core.goalBuffer 0 (getResultHeader status) :=
    overwrite_append core.goalBuffer 0 cdrLeHeader ([status.toI8.toUInt8] ++ [0, 0, 0])
      (by rw [Nat.zero_add]; exact opened)
  simp only [writeGetResultHeader, newWithHeader_eq_ok _ opened, CdrWriter.writeI8,
    CdrWriter.writeU8, CdrWriter.put_eq_ok _ ready _ first, Except.mapError, ok_bind,
    align_after_status (replyWriter core.goalBuffer) status.toI8.toUInt8 rfl rfl,
    CdrWriter.put_eq_ok _ (ready.after _ first) _ second, CdrWriter.after_after _ _ _ first]
  rw [joined]
  rfl

theorem writeGetResultHeader_short (status : GoalStatusCode)
    (short : core.goalBuffer.length < getResultPayloadOffset) :
    ∃ e, core.writeGetResultHeader status = .error e := by
  rw [getResultPayloadOffset] at short
  by_cases opened : 4 ≤ core.goalBuffer.length
  · have ready := replyWriter_ready core.goalBuffer opened
    have length := length_replyWriter core.goalBuffer opened
    simp only [writeGetResultHeader, newWithHeader_eq_ok _ opened, CdrWriter.writeI8,
      CdrWriter.writeU8, Except.mapError, ok_bind]
    by_cases first : (replyWriter core.goalBuffer).pos + [status.toI8.toUInt8].length ≤
        (replyWriter core.goalBuffer).buf.length
    · have full : ¬ ((replyWriter core.goalBuffer).after [status.toI8.toUInt8]).pos +
          [(0 : UInt8), 0, 0].length ≤
          ((replyWriter core.goalBuffer).after [status.toI8.toUInt8]).buf.length := by
        rw [CdrWriter.after, length_overwrite _ _ _ first, length]
        change ¬ 8 ≤ _
        omega
      simp only [CdrWriter.put_eq_ok _ ready _ first, ok_bind,
        align_after_status (replyWriter core.goalBuffer) status.toI8.toUInt8 rfl rfl,
        CdrWriter.put_eq_ite _ (ready.after _ first), if_neg full, error_bind]
      exact ⟨_, rfl⟩
    · simp only [CdrWriter.put_eq_ite _ ready, if_neg first, error_bind]
      exact ⟨_, rfl⟩
  · simp only [writeGetResultHeader, CdrWriter.newWithHeader, if_pos (Nat.not_le.mp opened),
      Except.mapError, error_bind]
    exact ⟨_, rfl⟩

theorem replyGetResult_fits (sized : core.goalBuffer.length = goalBuf) (sequenceNumber : Int64)
    (status : GoalStatusCode) (bytes : List UInt8)
    (fits : getResultPayloadOffset + bytes.length ≤ goalBuf) :
    ∃ buf, buf.length = goalBuf ∧ core.replyGetResult sequenceNumber status bytes.length bytes =
        ((core.getResultServer.sendResponse sequenceNumber (getResultReply status bytes)).1,
          { core with
            goalBuffer := buf
            getResultServer := (core.getResultServer.sendResponse sequenceNumber
              (getResultReply status bytes)).2 }) := by
  have header := length_getResultHeader status
  have opened : 0 + (getResultHeader status).length ≤ core.goalBuffer.length := by omega
  have joined := overwrite_append core.goalBuffer 0 (getResultHeader status) bytes opened
  have total : (getResultReply status bytes).length = getResultPayloadOffset + bytes.length := by
    rw [getResultReply, List.length_append, header]
  have whole := take_overwrite core.goalBuffer 0 (getResultReply status bytes) (Nat.zero_le _)
  rw [Nat.zero_add, total, List.take_zero, List.nil_append] at whole
  rw [Nat.zero_add, header] at joined
  refine ⟨overwrite core.goalBuffer 0 (getResultReply status bytes), ?_, ?_⟩
  · rw [length_overwrite _ _ _ (by rw [total]; omega), sized]
  · simp only [replyGetResult, core.writeGetResultHeader_ok status (by omega),
      if_neg (Nat.not_lt.mpr fits), joined]
    rw [← getResultReply, whole]

theorem replyGetResult_long (sized : core.goalBuffer.length = goalBuf) (sequenceNumber : Int64)
    (status : GoalStatusCode) (len : Nat) (bytes : List UInt8)
    (long : goalBuf < getResultPayloadOffset + len) :
    ∃ e buf, buf.length = goalBuf ∧ core.replyGetResult sequenceNumber status len bytes =
        (.error e, { core with goalBuffer := buf }) := by
  by_cases room : getResultPayloadOffset ≤ core.goalBuffer.length
  · have opened : 0 + (getResultHeader status).length ≤ core.goalBuffer.length := by
      rw [length_getResultHeader]
      omega
    refine ⟨.bufferTooSmall, _, (length_overwrite _ _ _ opened).trans sized, ?_⟩
    simp only [replyGetResult, core.writeGetResultHeader_ok status room, if_pos long]
  · rcases core.writeGetResultHeader_short status (Nat.not_le.mp room) with ⟨e, failed⟩
    refine ⟨e, core.goalBuffer, sized, ?_⟩
    simp only [replyGetResult, failed]

end

/-- The `get_result` service takes every reply, and the goal buffer has its size. -/
structure Listening (core : ActionServerCore goalBuf resultBuf maxGoals) : Prop where
  sized : core.goalBuffer.length = goalBuf
  accepting : ∀ n, core.getResultServer.accepts n = true

theorem sendResponse_accepting (s : ServiceServer) (accepting : ∀ n, s.accepts n = true)
    (sequenceNumber : Int64) (data : List UInt8) :
    s.sendResponse sequenceNumber data =
      (.ok (), { s with calls := s.calls + 1, sent := s.sent ++ [(sequenceNumber, data)] }) := by
  rw [ServiceServer.sendResponse, if_pos (accepting s.calls)]

variable {core : ActionServerCore goalBuf resultBuf maxGoals}

theorem replyGetResult_sends (listening : core.Listening) (sequenceNumber : Int64)
    (status : GoalStatusCode) (bytes : List UInt8) :
    ∃ result core', core.replyGetResult sequenceNumber status bytes.length bytes =
        (result, core') ∧ core'.Listening ∧
      core'.pendingGetResults = core.pendingGetResults ∧ core'.resultSlab = core.resultSlab ∧
      core'.getResultServer.sent = core.getResultServer.sent ++
        (if getResultPayloadOffset + bytes.length ≤ goalBuf then
          [(sequenceNumber, getResultReply status bytes)] else []) ∧
      (result = .ok () ↔ getResultPayloadOffset + bytes.length ≤ goalBuf) := by
  by_cases fits : getResultPayloadOffset + bytes.length ≤ goalBuf
  · rcases core.replyGetResult_fits listening.sized sequenceNumber status bytes fits with
      ⟨buf, length, replied⟩
    rw [sendResponse_accepting _ listening.accepting] at replied
    refine ⟨_, _, replied, ⟨length, listening.accepting⟩, rfl, rfl, ?_, ?_⟩
    · rw [if_pos fits]
    · exact ⟨fun _ => fits, fun _ => rfl⟩
  · rcases core.replyGetResult_long listening.sized sequenceNumber status bytes.length bytes
      (Nat.not_le.mp fits) with ⟨e, buf, length, failed⟩
    refine ⟨_, _, failed, ⟨length, listening.accepting⟩, rfl, rfl, ?_, ?_⟩
    · rw [if_neg fits, List.append_nil]
    · exact ⟨fun ok => (by cases ok), fun fit => absurd fit fits⟩

theorem replyGetResult_outcome (listening : core.Listening) (sequenceNumber : Int64)
    (status : GoalStatusCode) (bytes : List UInt8) :
    ∃ core', core'.Listening ∧ core'.pendingGetResults = core.pendingGetResults ∧
      ((∃ e, core.replyGetResult sequenceNumber status bytes.length bytes = (.error e, core') ∧
          core'.getResultServer.sent = core.getResultServer.sent) ∨
        (core.replyGetResult sequenceNumber status bytes.length bytes = (.ok (), core') ∧
          core'.getResultServer.sent =
            core.getResultServer.sent ++ [(sequenceNumber, getResultReply status bytes)])) := by
  rcases replyGetResult_sends listening sequenceNumber status bytes with
    ⟨result, core', replied, listening', pending, _, sent, ok⟩
  refine ⟨core', listening', pending, ?_⟩
  cases result with
  | error e =>
    have long : ¬ getResultPayloadOffset + bytes.length ≤ goalBuf := by
      intro fits
      cases ok.mpr fits
    rw [if_neg long, List.append_nil] at sent
    exact .inl ⟨e, replied, sent⟩
  | ok _ =>
    rw [if_pos (ok.mp rfl)] at sent
    exact .inr ⟨replied, sent⟩

/-- What a waiter of a goal that ends like this is sent. -/
def repliesTo (goalBuf : Nat) (status : GoalStatusCode) (resultCdr : List UInt8)
    (waiter : PendingGetResult) : List (Int64 × List UInt8) :=
  if getResultPayloadOffset + resultCdr.length ≤ goalBuf then
    [(waiter.sequenceNumber, getResultReply status resultCdr)] else []

theorem replyWaiter_eq {resultCdr : List UInt8} {stored : Option (Nat × Nat)}
    (kept : ∀ offset len, stored = some (offset, len) → len = resultCdr.length ∧
      slice core.resultSlab offset len = resultCdr) (status : GoalStatusCode) (seq : Int64) :
    core.replyWaiter status resultCdr stored seq =
      core.replyGetResult seq status resultCdr.length resultCdr := by
  rcases stored with _ | ⟨offset, len⟩
  · rfl
  · rcases kept offset len rfl with ⟨rfl, bytes⟩
    rw [replyWaiter, replyGetResultFromSlab, bytes]

theorem nothing_left (items : List PendingGetResult) (goalId : GoalUuid) (i : Nat)
    (passed : ∀ p ∈ items.take i, p.goalId ≠ goalId) (past : items.length ≤ i) :
    (items.filter fun p => p.goalId ≠ goalId) = items ∧
      (items.filter fun p => p.goalId = goalId) = [] := by
  rw [List.take_of_length_le past] at passed
  constructor
  · rw [List.filter_eq_self]
    intro p member
    simpa using passed p member
  · rw [List.filter_eq_nil_iff]
    intro p member
    simpa using passed p member

theorem owed_of_own {α : Type} {items rest : List PendingGetResult} {waiter : PendingGetResult}
    {goalId : GoalUuid} (split : items.Perm (waiter :: rest)) (own : waiter.goalId = goalId)
    (answer : PendingGetResult → List α) :
    (rest.filter fun p => p.goalId ≠ goalId).Perm (items.filter fun p => p.goalId ≠ goalId) ∧
    (answer waiter ++ (rest.filter fun p => p.goalId = goalId).flatMap answer).Perm
      ((items.filter fun p => p.goalId = goalId).flatMap answer) := by
  constructor
  · have others := split.filter (fun p => p.goalId ≠ goalId)
    rw [List.filter_cons_of_neg (by simp [own])] at others
    exact others.symm
  · have owners := split.filter (fun p => p.goalId = goalId)
    rw [List.filter_cons_of_pos (by simp [own])] at owners
    have answers := owners.flatMap_right answer
    rw [List.flatMap_cons] at answers
    exact answers.symm

/-- The flush loop from slot `i` on: every waiter of the goal is removed and answered once,
in some order, and no other waiter is touched. -/
theorem flushLoop_answers (goalId : GoalUuid) (status : GoalStatusCode) (resultCdr : List UInt8)
    (stored : Option (Nat × Nat)) (turns i : Nat) (delivered : Bool)
    (core : ActionServerCore goalBuf resultBuf maxGoals) (listening : core.Listening)
    (kept : ∀ offset len, stored = some (offset, len) → len = resultCdr.length ∧
      slice core.resultSlab offset len = resultCdr)
    (enough : core.pendingGetResults.len ≤ i + turns)
    (passed : ∀ p ∈ core.pendingGetResults.items.take i, p.goalId ≠ goalId) :
    (flushLoop goalId status resultCdr stored turns i delivered core).2.Listening ∧
    (flushLoop goalId status resultCdr stored turns i delivered core).2.pendingGetResults.items.Perm
      (core.pendingGetResults.items.filter fun p => p.goalId ≠ goalId) ∧
    (flushLoop goalId status resultCdr stored turns i delivered core).2.getResultServer.sent.Perm
      (core.getResultServer.sent ++
        (core.pendingGetResults.items.filter fun p => p.goalId = goalId).flatMap
          (repliesTo goalBuf status resultCdr)) := by
  induction turns generalizing i delivered core with
  | zero =>
    rcases nothing_left _ goalId i passed (by rw [BoundedVec.len] at enough; omega) with ⟨others, own⟩
    rw [flushLoop, others, own, List.flatMap_nil, List.append_nil]
    exact ⟨listening, .refl _, .refl _⟩
  | succ turns ih =>
    rw [flushLoop]
    cases placed : core.pendingGetResults.items[i]? with
    | none =>
      rcases nothing_left _ goalId i passed (List.getElem?_eq_none_iff.mp placed) with ⟨others, own⟩
      rw [others, own, List.flatMap_nil, List.append_nil]
      exact ⟨listening, .refl _, .refl _⟩
    | some waiter =>
      dsimp only
      split
      case isTrue own =>
        have inside := (List.getElem?_eq_some_iff.mp placed).1
        have front := (core.pendingGetResults.swapRemove_perm i inside).2
        have split := core.pendingGetResults.perm_cons_swapRemove i waiter placed
        have shorter := split.length_eq
        rw [List.length_cons] at shorter
        have removed : (core.removeWaiter i).Listening :=
          ⟨listening.sized, listening.accepting⟩
        have kept' : ∀ offset len, stored = some (offset, len) → len = resultCdr.length ∧
            slice (core.removeWaiter i).resultSlab offset len = resultCdr := kept
        rcases replyGetResult_sends removed waiter.sequenceNumber status resultCdr with
          ⟨result, core', replied, listening', unchanged, slab, sent, _⟩
        have pending : core'.pendingGetResults = core.pendingGetResults.swapRemove i := unchanged
        rw [replyWaiter_eq kept', replied]
        have rest := ih i (delivered || result.isOk) core' listening' (by rw [slab]; exact kept')
          (by
            rw [pending]
            simp only [BoundedVec.len] at enough ⊢
            omega)
          (by
            rw [pending]
            intro p member
            rw [front] at member
            exact passed p member)
        rw [pending, sent, List.append_assoc] at rest
        rcases owed_of_own split own (repliesTo goalBuf status resultCdr) with ⟨others, owners⟩
        exact ⟨rest.1, rest.2.1.trans others, rest.2.2.trans (owners.append_left _)⟩
      case isFalse other =>
        apply ih (i + 1) delivered core listening kept (by omega)
        intro p member
        rw [List.take_add_one, placed, Option.toList_some] at member
        rcases List.mem_append.mp member with earlier | here
        · exact passed p earlier
        · rw [List.mem_singleton.mp here]
          exact other

theorem completeGoalRaw_answers {history : List Completion} (holds : core.Holds history)
    (listening : core.Listening) (c : Completion) :
    (core.completeGoalRaw c.goalId c.status c.resultCdr).2.Listening ∧
    (core.completeGoalRaw c.goalId c.status c.resultCdr).2.pendingGetResults.items.Perm
      (core.pendingGetResults.items.filter fun p => p.goalId ≠ c.goalId) ∧
    (core.completeGoalRaw c.goalId c.status c.resultCdr).2.getResultServer.sent.Perm
      (core.getResultServer.sent ++
        (core.pendingGetResults.items.filter fun p => p.goalId = c.goalId).flatMap
          (repliesTo goalBuf c.status c.resultCdr)) := by
  rcases completeGoalRaw_flushes holds c with ⟨stored, core', reclaimed, _, kept, completed⟩
  have same : core'.pendingGetResults = core.pendingGetResults ∧
      core'.getResultServer = core.getResultServer ∧ core'.goalBuffer = core.goalBuffer := by
    rcases core.removeActiveGoal_frame c.goalId with ⟨active, ended⟩
    rw [ended] at reclaimed
    rcases reclaimed with ⟨_, _, _, rfl⟩
    exact ⟨rfl, rfl, rfl⟩
  rcases same with ⟨pending, server, buffer⟩
  have listening' : core'.Listening := by
    constructor
    · rw [buffer]
      exact listening.sized
    · rw [server]
      exact listening.accepting
  have flushed := flushLoop_answers c.goalId c.status c.resultCdr stored
    core'.pendingGetResults.len 0 false core' listening' kept (Nat.le_of_eq (Nat.zero_add _).symm)
    (by
      intro p member
      rw [List.take_zero] at member
      cases member)
  rw [completed, ← pending, ← server]
  simp only [flushWaiters]
  split
  · exact ⟨⟨flushed.1.sized, flushed.1.accepting⟩, flushed.2⟩
  · exact flushed

/-- What handling a request does to the waiters and the replies. -/
inductive Handled (core core' : ActionServerCore goalBuf resultBuf maxGoals)
    (history : List Completion) (goalId : GoalUuid) (sequenceNumber : Int64)
    (defaultResultCdr : List UInt8) : Except NodeError (Option GoalUuid) → Prop where
  | completed (c : Completion) (retained : goalId ∈ core.retained)
      (latest : mostRecent history goalId = some c)
      (pending : core'.pendingGetResults = core.pendingGetResults)
      (sent : core'.getResultServer.sent = core.getResultServer.sent ++
        [(sequenceNumber, getResultReply c.status c.resultCdr)]) :
      Handled core core' history goalId sequenceNumber defaultResultCdr (.ok (some goalId))
  | active (absent : goalId ∉ core.retained)
      (running : (core.activeGoals.items.any fun goal => goal.goalId = goalId) = true)
      (pending : core'.pendingGetResults.items =
        core.pendingGetResults.items ++ [⟨goalId, sequenceNumber⟩])
      (sent : core'.getResultServer.sent = core.getResultServer.sent) :
      Handled core core' history goalId sequenceNumber defaultResultCdr (.ok (some goalId))
  | unknown (absent : goalId ∉ core.retained)
      (ended : ¬ (core.activeGoals.items.any fun goal => goal.goalId = goalId) = true)
      (pending : core'.pendingGetResults = core.pendingGetResults)
      (sent : core'.getResultServer.sent = core.getResultServer.sent ++
        [(sequenceNumber, getResultReply .unknown defaultResultCdr)]) :
      Handled core core' history goalId sequenceNumber defaultResultCdr (.ok (some goalId))
  | failed (e : NodeError) (pending : core'.pendingGetResults = core.pendingGetResults)
      (sent : core'.getResultServer.sent = core.getResultServer.sent) :
      Handled core core' history goalId sequenceNumber defaultResultCdr (.error e)

theorem answerGetResult_handled {history : List Completion} (holds : core.Holds history)
    (listening : core.Listening) (goalId : GoalUuid) (sequenceNumber : Int64)
    (defaultResultCdr : List UInt8) :
    (core.answerGetResult goalId sequenceNumber defaultResultCdr).2.Listening ∧
    Handled core (core.answerGetResult goalId sequenceNumber defaultResultCdr).2 history goalId
      sequenceNumber defaultResultCdr
      (core.answerGetResult goalId sequenceNumber defaultResultCdr).1 := by
  rw [answerGetResult]
  cases found : core.completedResults.items.find? (fun entry => decide (entry.goalId = goalId)) with
  | some entry =>
    have member := List.mem_of_find?_eq_some found
    have own : entry.goalId = goalId := by simpa using List.find?_some found
    have retained : goalId ∈ core.retained := List.mem_map.mpr ⟨entry, member, own⟩
    have latest := holds.latest entry member
    have inside : entry.offset + entry.len ≤ core.resultSlab.length := by
      have stop := holds.inside entry member
      have room := holds.room
      rw [holds.sized]
      omega
    have length : (slice core.resultSlab entry.offset entry.len).length = entry.len :=
      length_slice _ _ _ inside
    rw [own] at latest
    rcases replyGetResult_outcome listening sequenceNumber entry.status
      (slice core.resultSlab entry.offset entry.len) with
      ⟨core', listening', pending, ⟨e, replied, sent⟩ | ⟨replied, sent⟩⟩
    · rw [length] at replied
      simp only [replyGetResultFromSlab, replied]
      exact ⟨listening', .failed e pending sent⟩
    · rw [length] at replied
      simp only [replyGetResultFromSlab, replied]
      exact ⟨⟨listening'.sized, listening'.accepting⟩, .completed _ retained latest pending sent⟩
  | none =>
    have absent : goalId ∉ core.retained := by
      intro listed
      rcases List.mem_map.mp listed with ⟨entry, member, own⟩
      have missed := List.find?_eq_none.mp found entry member
      simp [own] at missed
    dsimp only
    split
    case isTrue running =>
      cases stored : core.pendingGetResults.push ⟨goalId, sequenceNumber⟩ with
      | none => exact ⟨listening, .failed _ rfl rfl⟩
      | some pending =>
        exact ⟨⟨listening.sized, listening.accepting⟩,
          .active absent running (BoundedVec.items_of_push stored) rfl⟩
    case isFalse ended =>
      rcases replyGetResult_outcome listening sequenceNumber .unknown defaultResultCdr with
        ⟨core', listening', pending, ⟨e, replied, sent⟩ | ⟨replied, sent⟩⟩
      · simp only [replyGetResultBytes, replied]
        exact ⟨listening', .failed e pending sent⟩
      · simp only [replyGetResultBytes, replied]
        exact ⟨listening', .unknown absent ended pending sent⟩

theorem tryHandleGetResultRaw_cases (core : ActionServerCore goalBuf resultBuf maxGoals)
    (take : Take goalBuf) (defaultResultCdr : List UInt8) :
    (∃ goalId sequenceNumber, take.sequenceNumber = some sequenceNumber ∧
      core.tryHandleGetResultRaw take defaultResultCdr =
        (core.takeRequest take).answerGetResult goalId sequenceNumber defaultResultCdr) ∨
    ∃ result, (∀ goalId, result ≠ .ok (some goalId)) ∧
      core.tryHandleGetResultRaw take defaultResultCdr = (result, core.takeRequest take) := by
  simp only [tryHandleGetResultRaw]
  rcases taken : take.outcome with e | _ | request
  · right
    cases e <;> exact ⟨_, fun _ same => (by cases same), rfl⟩
  · exact .inr ⟨.ok none, fun _ same => (by cases same), rfl⟩
  · have sequenceNumber : take.sequenceNumber = some request.sequenceNumber := by
      rw [Take.sequenceNumber, taken]
    simp only [received]
    cases read : requestGoalId (core.takeRequest take).goalBuffer request with
    | error e => exact .inr ⟨.error e, fun _ same => (by cases same), rfl⟩
    | ok goalId => exact .inl ⟨goalId, _, sequenceNumber, rfl⟩

end ActionServerCore

/-- A requester whose goal had not ended when it asked. -/
structure Waiter where
  serial : Nat
  goalId : GoalUuid
  sequenceNumber : Int64
  deriving DecidableEq, Repr

structure Answer where
  serial : Nat
  sequenceNumber : Int64
  reply : List UInt8
  deriving DecidableEq, Repr

/-- Requests are numbered as they are taken: the backend may give a token to several of them,
one after the other. -/
structure ResultLedger where
  taken : Nat
  waiting : List Waiter
  answered : List Answer

namespace ResultLedger

def answer (l : ResultLedger) (sequenceNumber : Int64) (reply : List UInt8) : ResultLedger where
  taken := l.taken + 1
  waiting := l.waiting
  answered := l.answered ++ [⟨l.taken, sequenceNumber, reply⟩]

def defer (l : ResultLedger) (goalId : GoalUuid) (sequenceNumber : Int64) : ResultLedger where
  taken := l.taken + 1
  waiting := l.waiting ++ [⟨l.taken, goalId, sequenceNumber⟩]
  answered := l.answered

/-- Everyone who waits for the goal gets its status and its result. -/
def complete (l : ResultLedger) (c : Completion) : ResultLedger where
  taken := l.taken
  waiting := l.waiting.filter fun w => w.goalId ≠ c.goalId
  answered := l.answered ++ (l.waiting.filter fun w => w.goalId = c.goalId).map fun w =>
    ⟨w.serial, w.sequenceNumber, getResultReply c.status c.resultCdr⟩

/-- Every request taken is answered or waiting, and only once. -/
def Balanced (l : ResultLedger) : Prop :=
  (l.answered.map Answer.serial ++ l.waiting.map Waiter.serial).Perm (List.range l.taken)

theorem Balanced.answer {l : ResultLedger} (balanced : l.Balanced) (sequenceNumber : Int64)
    (reply : List UInt8) : (l.answer sequenceNumber reply).Balanced := by
  simp only [Balanced, ResultLedger.answer, List.map_append, List.map_singleton, List.range_succ]
  rw [List.append_assoc]
  refine List.Perm.trans (List.Perm.append_left _ List.perm_append_comm) ?_
  rw [← List.append_assoc]
  exact List.Perm.append_right _ balanced

theorem Balanced.defer {l : ResultLedger} (balanced : l.Balanced) (goalId : GoalUuid)
    (sequenceNumber : Int64) : (l.defer goalId sequenceNumber).Balanced := by
  simp only [Balanced, ResultLedger.defer, List.map_append, List.map_singleton, List.range_succ]
  rw [← List.append_assoc]
  exact List.Perm.append_right _ balanced

theorem Balanced.complete {l : ResultLedger} (balanced : l.Balanced) (c : Completion) :
    (l.complete c).Balanced := by
  have parts := (List.filter_append_perm (fun w : Waiter => decide (w.goalId = c.goalId))
    l.waiting).map Waiter.serial
  refine List.Perm.trans ?_ balanced
  simp only [ResultLedger.complete, List.map_append, List.map_map, List.append_assoc]
  rw [List.map_append] at parts
  refine List.Perm.append_left _ (List.Perm.trans ?_ parts)
  simp [Function.comp_def]

end ResultLedger

structure ResultService (goalBuf resultBuf maxGoals : Nat) where
  server : WatchedServer goalBuf resultBuf maxGoals
  ledger : ResultLedger

namespace ResultService

variable {goalBuf resultBuf maxGoals : Nat}

/-- What a requester of `goalId` is owed, from what the server knows when it asks. -/
def owe (s : ResultService goalBuf resultBuf maxGoals) (goalId : GoalUuid)
    (sequenceNumber : Int64) (defaultResultCdr : List UInt8) : ResultLedger :=
  if goalId ∈ s.server.core.retained then
    match mostRecent s.server.history goalId with
    | some c => s.ledger.answer sequenceNumber (getResultReply c.status c.resultCdr)
    | none => s.ledger
  else if s.server.core.activeGoals.items.any fun goal => goal.goalId = goalId then
    s.ledger.defer goalId sequenceNumber
  else s.ledger.answer sequenceNumber (getResultReply .unknown defaultResultCdr)

def ledgerAfter (s : ResultService goalBuf resultBuf maxGoals) : ServerEvent goalBuf → ResultLedger
  | .complete c => s.ledger.complete c
  | .getResult take defaultResultCdr =>
    match (s.server.core.tryHandleGetResultRaw take defaultResultCdr).1, take.sequenceNumber with
    | .ok (some goalId), some sequenceNumber => s.owe goalId sequenceNumber defaultResultCdr
    | _, _ => s.ledger
  | _ => s.ledger

def step (s : ResultService goalBuf resultBuf maxGoals) (e : ServerEvent goalBuf) :
    Option (ResultService goalBuf resultBuf maxGoals) :=
  (s.server.step e).map fun server => ⟨server, s.ledgerAfter e⟩

/-- The `get_result` backend takes every reply. -/
def init (sendGoalServer : ServiceServer) : ResultService goalBuf resultBuf maxGoals :=
  ⟨WatchedServer.init sendGoalServer ⟨fun _ => true, 0, []⟩, ⟨0, [], []⟩⟩

/-- A goal that someone waits for ends with a result whose reply fits the goal buffer. -/
def Fits (s : ResultService goalBuf resultBuf maxGoals) : ServerEvent goalBuf → Prop
  | .complete c => (∃ p ∈ s.server.core.pendingGetResults.items, p.goalId = c.goalId) →
      getResultPayloadOffset + c.resultCdr.length ≤ goalBuf
  | _ => True

/-- The server holds the requests that wait and has sent the answers, each exactly once. -/
structure Settled (s : ResultService goalBuf resultBuf maxGoals) : Prop where
  pending : s.server.core.pendingGetResults.items.Perm
    (s.ledger.waiting.map fun w => ⟨w.goalId, w.sequenceNumber⟩)
  replies : s.server.core.getResultServer.sent.Perm
    (s.ledger.answered.map fun a => (a.sequenceNumber, a.reply))
  once : s.ledger.Balanced

/-- Someone was taken off the list of waiters and sent nothing. -/
def Stranded (s : ResultService goalBuf resultBuf maxGoals) : Prop :=
  s.server.core.getResultServer.sent.length + s.server.core.pendingGetResults.len < s.ledger.taken

structure Sound (s : ResultService goalBuf resultBuf maxGoals) : Prop where
  holds : s.server.core.Holds s.server.history
  listening : s.server.core.Listening
  settled : s.Settled

variable {s next : ResultService goalBuf resultBuf maxGoals}

theorem Settled.taken_eq (settled : s.Settled) :
    s.server.core.getResultServer.sent.length + s.server.core.pendingGetResults.items.length =
      s.ledger.taken := by
  have pending := settled.pending.length_eq
  have replies := settled.replies.length_eq
  have once := settled.once.length_eq
  simp only [List.length_map, List.length_append, List.length_range] at pending replies once
  omega

theorem Settled.not_stranded (settled : s.Settled) :
    ¬ s.Stranded := by
  have taken := settled.taken_eq
  rw [Stranded, BoundedVec.len]
  omega

/-- What an event other than a completion does. -/
inductive Effect (s next : ResultService goalBuf resultBuf maxGoals) : Prop where
  | answered (sequenceNumber : Int64) (reply : List UInt8)
      (ledger : next.ledger = s.ledger.answer sequenceNumber reply)
      (pending : next.server.core.pendingGetResults = s.server.core.pendingGetResults)
      (sent : next.server.core.getResultServer.sent =
        s.server.core.getResultServer.sent ++ [(sequenceNumber, reply)])
  | deferred (goalId : GoalUuid) (sequenceNumber : Int64)
      (ledger : next.ledger = s.ledger.defer goalId sequenceNumber)
      (pending : next.server.core.pendingGetResults.items =
        s.server.core.pendingGetResults.items ++ [⟨goalId, sequenceNumber⟩])
      (sent : next.server.core.getResultServer.sent = s.server.core.getResultServer.sent)
  | quiet (ledger : next.ledger = s.ledger)
      (pending : next.server.core.pendingGetResults = s.server.core.pendingGetResults)
      (sent : next.server.core.getResultServer.sent = s.server.core.getResultServer.sent)

theorem getResult_effect (holds : s.server.core.Holds s.server.history)
    (listening : s.server.core.Listening) (take : Take goalBuf) (defaultResultCdr : List UInt8)
    (stepped : s.step (.getResult take defaultResultCdr) = some next) :
    next.server.core.Listening ∧ Effect s next := by
  have ready : (s.server.core.takeRequest take).Listening := ⟨take.sized, listening.accepting⟩
  have holds' : (s.server.core.takeRequest take).Holds s.server.history := holds
  cases stepped
  simp only [ledgerAfter]
  rcases s.server.core.tryHandleGetResultRaw_cases take defaultResultCdr with
    ⟨goalId, sequenceNumber, numbered, handled⟩ | ⟨result, nothing, refused⟩
  · rcases ActionServerCore.answerGetResult_handled holds' ready goalId sequenceNumber
      defaultResultCdr with ⟨listening', effect⟩
    rw [handled, numbered]
    refine ⟨listening', ?_⟩
    generalize (s.server.core.takeRequest take).answerGetResult goalId sequenceNumber
      defaultResultCdr = answered at effect
    rcases answered with ⟨result, core'⟩
    cases effect with
    | completed c retained latest pending sent =>
      refine .answered sequenceNumber (getResultReply c.status c.resultCdr) ?_ pending sent
      have known : goalId ∈ s.server.core.retained := retained
      simp only [owe, if_pos known, latest]
    | active absent running pending sent =>
      refine .deferred goalId sequenceNumber ?_ pending sent
      have unknown : goalId ∉ s.server.core.retained := absent
      have busy : (s.server.core.activeGoals.items.any fun goal => goal.goalId = goalId) = true :=
        running
      simp only [owe, if_neg unknown, if_pos busy]
    | unknown absent ended pending sent =>
      refine .answered sequenceNumber (getResultReply .unknown defaultResultCdr) ?_ pending sent
      have unknown : goalId ∉ s.server.core.retained := absent
      have idle : ¬ (s.server.core.activeGoals.items.any fun goal => goal.goalId = goalId) =
          true := ended
      simp only [owe, if_neg unknown, if_neg idle]
    | failed e pending sent => exact .quiet rfl pending sent
  · rw [refused]
    refine ⟨ready, .quiet ?_ rfl rfl⟩
    rcases result with e | _ | goalId
    · rfl
    · rfl
    · exact absurd rfl (nothing goalId)

theorem quiet_effect (listening : s.server.core.Listening)
    {core : ActionServerCore goalBuf resultBuf maxGoals}
    (pending : core.pendingGetResults = s.server.core.pendingGetResults)
    (service : core.getResultServer = s.server.core.getResultServer)
    (sized : core.goalBuffer.length = goalBuf) :
    core.Listening ∧ Effect s ⟨⟨core, s.server.history⟩, s.ledger⟩ := by
  refine ⟨⟨sized, ?_⟩, .quiet rfl pending ?_⟩
  · rw [service]
    exact listening.accepting
  · exact congrArg ServiceServer.sent service

theorem step_effect (holds : s.server.core.Holds s.server.history)
    (listening : s.server.core.Listening) (e : ServerEvent goalBuf) (other : ∀ c, e ≠ .complete c)
    (stepped : s.step e = some next) :
    next.server.core.Listening ∧ Effect s next := by
  cases e with
  | recvGoal take =>
    simp only [step, WatchedServer.step, Option.map_some, Option.some.injEq] at stepped
    rw [← stepped, s.server.core.tryRecvGoalRequest_frame take]
    exact quiet_effect listening rfl rfl take.sized
  | accept goalId seq stamp =>
    rcases s.server.core.acceptGoal_frame goalId seq stamp with ⟨_, _, _, kept⟩
    simp only [step, WatchedServer.step, Option.map_some, Option.some.injEq] at stepped
    rw [← stepped, kept]
    exact quiet_effect listening rfl rfl listening.sized
  | reject seq =>
    rcases s.server.core.rejectGoal_frame seq with ⟨_, _, kept⟩
    simp only [step, WatchedServer.step, Option.map_some, Option.some.injEq] at stepped
    rw [← stepped, kept]
    exact quiet_effect listening rfl rfl listening.sized
  | setStatus goalId status =>
    cases stepped
    exact quiet_effect listening rfl rfl listening.sized
  | complete c => exact absurd rfl (other c)
  | expire =>
    rcases s.server.core.expireCompletedResults_frame with ⟨_, _, _, kept⟩
    simp only [step, WatchedServer.step, Option.map_some, Option.some.injEq] at stepped
    rw [← stepped, kept]
    exact quiet_effect listening rfl rfl listening.sized
  | getResult take defaultResultCdr =>
    exact getResult_effect holds listening take defaultResultCdr stepped

theorem Effect.settled (effect : Effect s next) (settled : s.Settled) : next.Settled := by
  cases effect with
  | answered sequenceNumber reply ledger pending sent =>
    constructor
    · rw [pending, ledger]
      exact settled.pending
    · rw [sent, ledger, ResultLedger.answer, List.map_append]
      exact settled.replies.append_right _
    · rw [ledger]
      exact settled.once.answer sequenceNumber reply
  | deferred goalId sequenceNumber ledger pending sent =>
    constructor
    · rw [pending, ledger, ResultLedger.defer, List.map_append]
      exact settled.pending.append_right _
    · rw [sent, ledger]
      exact settled.replies
    · rw [ledger]
      exact settled.once.defer goalId sequenceNumber
  | quiet ledger pending sent =>
    constructor
    · rw [pending, ledger]
      exact settled.pending
    · rw [sent, ledger]
      exact settled.replies
    · rw [ledger]
      exact settled.once

theorem Effect.stranded (effect : Effect s next) (stranded : s.Stranded) : next.Stranded := by
  simp only [Stranded, BoundedVec.len] at stranded ⊢
  cases effect with
  | answered sequenceNumber reply ledger pending sent
  | deferred goalId sequenceNumber ledger pending sent =>
    rw [sent, pending, ledger, List.length_append, List.length_singleton]
    change _ < s.ledger.taken + 1
    omega
  | quiet ledger pending sent =>
    rw [sent, pending, ledger]
    exact stranded

theorem length_filters (items : List PendingGetResult) (goalId : GoalUuid) :
    (items.filter fun p => p.goalId = goalId).length +
      (items.filter fun p => p.goalId ≠ goalId).length = items.length := by
  have parts := (List.filter_append_perm (fun p : PendingGetResult => decide (p.goalId = goalId))
    items).length_eq
  simpa using parts

theorem Settled.filter (settled : s.Settled) (p : GoalUuid → Bool) :
    (s.server.core.pendingGetResults.items.filter fun w => p w.goalId).Perm
      ((s.ledger.waiting.filter fun w => p w.goalId).map
        fun w => ⟨w.goalId, w.sequenceNumber⟩) := by
  refine (settled.pending.filter _).trans ?_
  rw [List.filter_map]
  rfl

theorem complete_settled (sound : s.Sound) (c : Completion) (fits : s.Fits (.complete c))
    (stepped : s.step (.complete c) = some next) :
    next.Settled := by
  rcases ActionServerCore.completeGoalRaw_answers sound.holds sound.listening c with
    ⟨_, pending, sent⟩
  cases stepped
  have owners : (s.server.core.pendingGetResults.items.filter fun p => p.goalId = c.goalId).flatMap
      (ActionServerCore.repliesTo goalBuf c.status c.resultCdr) =
      (s.server.core.pendingGetResults.items.filter fun p => p.goalId = c.goalId).map
        fun p => (p.sequenceNumber, getResultReply c.status c.resultCdr) := by
    rw [List.map_eq_flatMap]
    apply List.flatMap_congr
    intro p member
    rcases List.mem_filter.mp member with ⟨listed, own⟩
    rw [ActionServerCore.repliesTo, if_pos (fits ⟨p, listed, by simpa using own⟩)]
  rw [owners] at sent
  constructor
  · exact pending.trans (sound.settled.filter fun goalId => goalId ≠ c.goalId)
  · refine sent.trans ?_
    simp only [ledgerAfter, ResultLedger.complete, List.map_append, List.map_map]
    refine sound.settled.replies.append ?_
    refine ((sound.settled.filter fun goalId => goalId = c.goalId).map _).trans ?_
    rw [List.map_map]
    rfl
  · exact sound.settled.once.complete c

theorem complete_strands (sound : s.Sound) (c : Completion) (long : ¬ s.Fits (.complete c))
    (stepped : s.step (.complete c) = some next) :
    next.Stranded := by
  simp only [Fits, not_forall] at long
  rcases long with ⟨⟨p, listed, own⟩, large⟩
  rcases ActionServerCore.completeGoalRaw_answers sound.holds sound.listening c with
    ⟨_, pending, sent⟩
  have nothing : (s.server.core.pendingGetResults.items.filter fun p => p.goalId = c.goalId).flatMap
      (ActionServerCore.repliesTo goalBuf c.status c.resultCdr) = [] := by
    rw [List.flatMap_eq_nil_iff]
    intro p _
    rw [ActionServerCore.repliesTo, if_neg large]
  rw [nothing, List.append_nil] at sent
  cases stepped
  have waiter : 0 < (s.server.core.pendingGetResults.items.filter
      fun p => p.goalId = c.goalId).length := by
    rw [List.length_pos_iff_exists_mem]
    exact ⟨p, List.mem_filter.mpr ⟨listed, by simpa using own⟩⟩
  have total := length_filters s.server.core.pendingGetResults.items c.goalId
  have kept := pending.length_eq
  have same := sent.length_eq
  have taken := sound.settled.taken_eq
  rw [Stranded, BoundedVec.len]
  change (s.server.core.completeGoalRaw c.goalId c.status c.resultCdr).2.getResultServer.sent.length +
    (s.server.core.completeGoalRaw c.goalId c.status c.resultCdr).2.pendingGetResults.items.length <
      s.ledger.taken
  omega

theorem complete_stranded (holds : s.server.core.Holds s.server.history)
    (listening : s.server.core.Listening) (c : Completion) (stranded : s.Stranded)
    (stepped : s.step (.complete c) = some next) :
    next.Stranded := by
  rcases ActionServerCore.completeGoalRaw_answers holds listening c with ⟨_, pending, sent⟩
  have atMost : ((s.server.core.pendingGetResults.items.filter
      fun p => p.goalId = c.goalId).flatMap
        (ActionServerCore.repliesTo goalBuf c.status c.resultCdr)).length ≤
      (s.server.core.pendingGetResults.items.filter fun p => p.goalId = c.goalId).length := by
    generalize s.server.core.pendingGetResults.items.filter _ = owners
    induction owners with
    | nil => exact Nat.le_refl _
    | cons p rest ih =>
      have one : (ActionServerCore.repliesTo goalBuf c.status c.resultCdr p).length ≤ 1 := by
        rw [ActionServerCore.repliesTo]
        split <;> simp
      rw [List.flatMap_cons, List.length_append, List.length_cons]
      omega
  have total := length_filters s.server.core.pendingGetResults.items c.goalId
  have kept := pending.length_eq
  have more := sent.length_eq
  rw [List.length_append] at more
  cases stepped
  rw [Stranded, BoundedVec.len] at stranded ⊢
  change (s.server.core.completeGoalRaw c.goalId c.status c.resultCdr).2.getResultServer.sent.length +
    (s.server.core.completeGoalRaw c.goalId c.status c.resultCdr).2.pendingGetResults.items.length <
      s.ledger.taken
  omega

/-- What holds in every run, whether or not a reply ever fails to fit. -/
structure Based (s : ResultService goalBuf resultBuf maxGoals) : Prop where
  holds : s.server.core.Holds s.server.history
  listening : s.server.core.Listening

variable (s)

variable (e : ServerEvent goalBuf)

theorem step_based (next : ResultService goalBuf resultBuf maxGoals) (based : s.Based)
    (stepped : s.step e = some next) : next.Based := by
  have inner : s.server.step e = some next.server := by
    rcases Option.map_eq_some_iff.mp stepped with ⟨server, taken, rfl⟩
    exact taken
  refine ⟨WatchedServer.step_holds s.server e next.server based.holds inner, ?_⟩
  by_cases completes : ∃ c, e = .complete c
  · rcases completes with ⟨c, rfl⟩
    cases stepped
    exact (ActionServerCore.completeGoalRaw_answers based.holds based.listening c).1
  · exact (step_effect based.holds based.listening e (fun c same => completes ⟨c, same⟩) stepped).1

theorem step_sound (next : ResultService goalBuf resultBuf maxGoals) (sound : s.Sound)
    (fits : s.Fits e) (stepped : s.step e = some next) : next.Sound := by
  have based := step_based s e next ⟨sound.holds, sound.listening⟩ stepped
  refine ⟨based.holds, based.listening, ?_⟩
  by_cases completes : ∃ c, e = .complete c
  · rcases completes with ⟨c, rfl⟩
    exact complete_settled sound c fits stepped
  · have effect := (step_effect sound.holds sound.listening e
      (fun c same => completes ⟨c, same⟩) stepped).2
    exact effect.settled sound.settled

theorem step_strands (next : ResultService goalBuf resultBuf maxGoals) (sound : s.Sound)
    (long : ¬ s.Fits e) (stepped : s.step e = some next) : next.Based ∧ next.Stranded := by
  refine ⟨step_based s e next ⟨sound.holds, sound.listening⟩ stepped, ?_⟩
  cases e with
  | complete c => exact complete_strands sound c long stepped
  | _ => exact absurd trivial long

theorem step_stranded (next : ResultService goalBuf resultBuf maxGoals)
    (fault : s.Based ∧ s.Stranded) (stepped : s.step e = some next)
    : next.Based ∧ next.Stranded := by
  rcases fault with ⟨based, stranded⟩
  refine ⟨step_based s e next based stepped, ?_⟩
  by_cases completes : ∃ c, e = .complete c
  · rcases completes with ⟨c, rfl⟩
    exact complete_stranded based.holds based.listening c stranded stepped
  · have effect := (step_effect based.holds based.listening e
      (fun c same => completes ⟨c, same⟩) stepped).2
    exact effect.stranded stranded

variable {s}

theorem sound_init (sendGoalServer : ServiceServer) :
    (init sendGoalServer : ResultService goalBuf resultBuf maxGoals).Sound where
  holds := WatchedServer.holds_init sendGoalServer _
  listening := ⟨List.length_replicate, fun _ => rfl⟩
  settled := ⟨.refl _, .refl _, .refl _⟩

theorem get_result_settled_iff (sendGoalServer : ServiceServer)
    (events : List (ServerEvent goalBuf)) (s : ResultService goalBuf resultBuf maxGoals)
    (reached : run step (init sendGoalServer) events = some s) :
    s.Settled ↔ Along step Fits
      (init sendGoalServer : ResultService goalBuf resultBuf maxGoals) events := by
  constructor
  · intro settled
    have traced := @run_sound_iff _ _ step Fits Sound
      (fun s : ResultService goalBuf resultBuf maxGoals => s.Based ∧ s.Stranded)
      (fun _ sound fault => sound.settled.not_stranded fault.2) step_sound step_strands
      step_stranded (init sendGoalServer) s events (sound_init sendGoalServer) reached
    exact traced.mp fun fault => settled.not_stranded fault.2
  · intro fits
    exact (run_invariant_along step_sound (init sendGoalServer) s events
      (sound_init sendGoalServer) fits reached).settled

/-- A request for goal `[5; 16]` with token 7, at the front of a buffer of `20 + spare` bytes. -/
def askFor5 (spare : Nat) : Take (20 + spare) where
  buf := cdrLeHeader ++ List.replicate 16 5 ++ List.replicate spare 0
  sized := by
    simp only [cdrLeHeader, List.length_append, List.length_replicate, List.length_cons,
      List.length_nil]
  outcome := .ok (some ⟨0, 20, Nat.le_add_right _ _, 7⟩)

/-- A requester of a running goal is answered when the goal ends. -/
theorem get_result_settled_deferred : ∃ s : ResultService 32 16 2,
    run step (init ⟨fun _ => true, 0, []⟩)
      [.accept ⟨Vector.replicate 16 5⟩ 1 ⟨0, 0⟩, .getResult (askFor5 12) [],
       .complete ⟨⟨Vector.replicate 16 5⟩, .succeeded, [1, 2, 3]⟩] = some s ∧
    s.server.core.getResultServer.sent =
      [(7, [0x00, 0x01, 0x00, 0x00, 4, 0, 0, 0, 1, 2, 3])] ∧ s.Settled := by
  refine ⟨_, rfl, by decide +kernel, ?_⟩
  refine (get_result_settled_iff ⟨fun _ => true, 0, []⟩
    [.accept ⟨Vector.replicate 16 5⟩ 1 ⟨0, 0⟩, .getResult (askFor5 12) [],
     .complete ⟨⟨Vector.replicate 16 5⟩, .succeeded, [1, 2, 3]⟩] _ rfl).mpr (along_of_always ?_ _)
  simp [Fits, getResultPayloadOffset]

/-- A result of 17 bytes is kept in a slab of 64, the completion says so, and the requester gets
no reply: the goal buffer of 24 bytes cannot hold one. -/
theorem get_result_stranded : ∃ s : ResultService 24 64 2, run step (init ⟨fun _ => true, 0, []⟩)
      [.accept ⟨Vector.replicate 16 5⟩ 1 ⟨0, 0⟩, .getResult (askFor5 4) []] = some s ∧
    s.server.core.pendingGetResults.items = [⟨⟨Vector.replicate 16 5⟩, 7⟩] ∧
    (s.server.core.completeGoalRaw ⟨Vector.replicate 16 5⟩ .succeeded
      (List.replicate 17 1)).1 = .ok () ∧
    ∃ next, s.step (.complete ⟨⟨Vector.replicate 16 5⟩, .succeeded, List.replicate 17 1⟩) =
        some next ∧
      next.server.core.pendingGetResults.items = [] ∧
      next.server.core.getResultServer.sent = [] ∧ ¬ next.Settled := by
  refine ⟨_, rfl, by decide +kernel, by decide +kernel, _, rfl, by decide +kernel,
    by decide +kernel, ?_⟩
  intro settled
  have owed := settled.replies.length_eq
  revert owed
  decide +kernel

end ResultService

end NanoRos
