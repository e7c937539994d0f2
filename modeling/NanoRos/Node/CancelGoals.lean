import NanoRos.Lib.Flags
import NanoRos.Node.ActionClient
import NanoRos.Node.GoalAcceptance
import NanoRos.Node.TimeArithmetic

/-! `CancelGoal` requests (`try_handle_cancel`): which goals a request selects, what the handler
makes of each, and the reply as a client decodes it (`action_frame.rs`). -/

namespace NanoRos

open LittleEndian Memory

inductive CancelResponse where
  | reject
  | accept
  deriving DecidableEq

inductive CancelResponseCode where
  | ok
  | rejected
  | unknownGoal
  | goalTerminated
  deriving DecidableEq

def CancelResponseCode.toI8 : CancelResponseCode → Int8
  | .ok => 0
  | .rejected => 1
  | .unknownGoal => 2
  | .goalTerminated => 3

def GoalStatusCode.cancelable : GoalStatusCode → Bool
  | .accepted | .executing => true
  | _ => false

def Time.isZero (t : Time) : Bool := t.sec = 0 && t.nanosec = 0

/-- The core with its `cancel_goal` service. -/
structure CancelServer (goalBuf resultBuf maxGoals : Nat) where
  core : ActionServerCore goalBuf resultBuf maxGoals
  cancelGoalServer : ServiceServer

/-- The goal id and the stamp of a request; a stamp that is not there reads as zero. -/
def cancelRequest {size : Nat} (buf : List UInt8) (request : ServiceRequest size) :
    Except NodeError (GoalUuid × Time) := do
  let reader ← (CdrReader.newWithHeader (slice buf request.dataOffset request.dataLen)).mapError
    fun _ => NodeError.transport .deserializationError
  let (goalId, reader) ← readGoalId reader
  let (stampSec, reader) := match reader.readI32 with
    | .ok (value, reader) => (value, reader)
    | .error _ => (0, reader)
  let stampNanosec := match reader.readU32 with
    | .ok (value, _) => value
    | .error _ => 0
  return (goalId, ⟨stampSec, stampNanosec⟩)

/-- `GoalInfo`: the id, then the stamp of the acceptance. -/
def writeGoalInfo (writer : CdrWriter) (goal : RawActiveGoal) : Except NodeError CdrWriter := do
  let writer ← writeGoalId writer goal.goalId
  let writer ← (writer.writeI32 goal.stamp.sec).mapError fun _ => NodeError.serialization
  (writer.writeU32 goal.stamp.nanosec).mapError fun _ => NodeError.serialization

namespace ActionServerCore

variable {goalBuf resultBuf maxGoals : Nat} {σ : Type}

/-- The last loop of `select_cancel_goals`. -/
def selectBefore (core : ActionServerCore goalBuf resultBuf maxGoals) (requestStamp : Time)
    (selected : List Bool) : List Bool :=
  core.activeGoals.items.zipIdx.foldl (fun selected item =>
    if item.1.status.cancelable && (requestStamp.isZero ||
        decide (item.1.stamp.toNanos ≤ requestStamp.toNanos)) then selected.set item.2 true
    else selected) selected

def selectCancelGoals (core : ActionServerCore goalBuf resultBuf maxGoals) (goalId : GoalUuid)
    (requestStamp : Time) : List Bool × Option CancelResponseCode :=
  let selected := List.replicate maxGoals false
  if goalId.uuid = Vector.replicate 16 0 then (core.selectBefore requestStamp selected, none)
  else
    match core.activeGoals.items.findIdx? fun g => g.goalId = goalId with
    | some i =>
      let selected :=
        if core.activeGoals.items[i]?.any fun g => g.status.cancelable then selected.set i true
        else selected
      if requestStamp.isZero then (selected, none)
      else (core.selectBefore requestStamp selected, none)
    | none =>
      (selected, some (if core.completedResults.items.any fun c => c.goalId = goalId then
        .goalTerminated else .unknownGoal))

/-- Ask about the selected goals: which of them the handler cancels, and whether any. -/
def askHandler (core : ActionServerCore goalBuf resultBuf maxGoals)
    (cancelHandler : σ → GoalUuid → GoalStatusCode → CancelResponse × σ) (selected : List Bool)
    (s : σ) : List Bool × Bool × σ :=
  core.activeGoals.items.zipIdx.foldl
    (fun (acc : List Bool × Bool × σ) item =>
      if selected.getD item.2 false then
        let answer := cancelHandler acc.2.2 item.1.goalId item.1.status
        if answer.1 = .accept then (acc.1.set item.2 true, true, answer.2)
        else (acc.1, acc.2.1, answer.2)
      else acc)
    (List.replicate maxGoals false, false, s)

def setCanceling (core : ActionServerCore goalBuf resultBuf maxGoals) (canceling : List Bool) :
    ActionServerCore goalBuf resultBuf maxGoals :=
  { core with
    activeGoals := ⟨core.activeGoals.items.zipIdx.map fun item =>
        if canceling.getD item.2 false then { item.1 with status := .canceling } else item.1, by
      rw [List.length_map, List.length_zipIdx]
      exact core.activeGoals.fits⟩ }

/-- `[CDR header][return_code i8][pad to 4][count u32][GoalInfo × count]` in the goal buffer. -/
def cancelReply (core : ActionServerCore goalBuf resultBuf maxGoals)
    (returnCode : CancelResponseCode) (canceling : List Bool) :
    Except NodeError (Nat × ActionServerCore goalBuf resultBuf maxGoals) := do
  let writer ← (CdrWriter.newWithHeader core.goalBuffer).mapError fun _ => NodeError.bufferTooSmall
  let writer ← (writer.writeI8 returnCode.toI8).mapError fun _ => NodeError.serialization
  let count := UInt32.ofNat (canceling.count true)
  let writer ← (writer.writeU32 count).mapError fun _ => NodeError.serialization
  let writer ← core.activeGoals.items.zipIdx.foldlM (fun writer item =>
    if canceling.getD item.2 false then writeGoalInfo writer item.1 else pure writer) writer
  return (writer.position, { core with goalBuffer := writer.buf })

end ActionServerCore

namespace CancelServer

variable {goalBuf resultBuf maxGoals : Nat} {σ : Type}

/-- `try_handle_cancel` once the request names the goals. -/
def answerCancel (server : CancelServer goalBuf resultBuf maxGoals)
    (cancelHandler : σ → GoalUuid → GoalStatusCode → CancelResponse × σ) (goalId : GoalUuid)
    (requestStamp : Time) (sequenceNumber : Int64) (s : σ) :
    Except NodeError (Option (GoalUuid × CancelResponse)) ×
      CancelServer goalBuf resultBuf maxGoals × σ :=
  let selection := server.core.selectCancelGoals goalId requestStamp
  let asked := server.core.askHandler cancelHandler selection.1 s
  let canceling := asked.1
  let any := asked.2.1
  let core := server.core.setCanceling canceling
  let returnCode := selection.2.getD (if any then .ok else .rejected)
  match core.cancelReply returnCode canceling with
  | .error e => (.error e, { server with core := core }, asked.2.2)
  | .ok (replyLen, core) =>
    match server.cancelGoalServer.sendResponse sequenceNumber (core.goalBuffer.take replyLen) with
    | (.error _, backend) => (.error .serviceReplyFailed, ⟨core, backend⟩, asked.2.2)
    | (.ok _, backend) =>
      (.ok (some (goalId, if any then .accept else .reject)), ⟨core, backend⟩, asked.2.2)

/-- Cancel requests are taken into the cancel buffer. -/
def takeRequest (server : CancelServer goalBuf resultBuf maxGoals) (take : Take cancelBuf) :
    CancelServer goalBuf resultBuf maxGoals :=
  { server with core := { server.core with cancelBuffer := take.buf } }

def tryHandleCancel (server : CancelServer goalBuf resultBuf maxGoals)
    (cancelHandler : σ → GoalUuid → GoalStatusCode → CancelResponse × σ) (take : Take cancelBuf)
    (s : σ) : Except NodeError (Option (GoalUuid × CancelResponse)) ×
      CancelServer goalBuf resultBuf maxGoals × σ :=
  let server := server.takeRequest take
  match received take.outcome with
  | .error e => (.error e, server, s)
  | .ok none => (.ok none, server, s)
  | .ok (some request) =>
    match cancelRequest server.core.cancelBuffer request with
    | .error e => (.error e, server, s)
    | .ok (goalId, requestStamp) =>
      server.answerCancel cancelHandler goalId requestStamp request.sequenceNumber s

end CancelServer

def cancelGoalsCountOffset : Nat := 8

def cancelGoalsOffset : Nat := 12

def goalInfoLen : Nat := 24

def cancelReturnCode (reply : List UInt8) : Option Int8 :=
  reply[replyStatusOffset]?.map UInt8.toInt8

def cancelGoalsCount (reply : List UInt8) : Option Nat :=
  if reply.length < cancelGoalsOffset then none
  else
    let n := leNat (slice reply cancelGoalsCountOffset 4)
    let need := n * goalInfoLen + cancelGoalsOffset
    if usizeMax < need then none else if need ≤ reply.length then some n else none

def cancelGoalInfo (reply : List UInt8) (i : Nat) : Option (GoalUuid × Int32 × UInt32) :=
  (cancelGoalsCount reply).bind fun n =>
    if n ≤ i then none
    else
      let at_ := cancelGoalsOffset + i * goalInfoLen
      if reply.length < at_ + goalInfoLen then none
      else
        let b := slice reply at_ goalInfoLen
        some (⟨Vector.ofFn fun k => b.getD k.val 0⟩,
          (UInt32.ofNat (leNat (slice b 16 4))).toInt32, UInt32.ofNat (leNat (slice b 20 4)))

/-- The goals a request is about, as `action_msgs` lists them. -/
def Wants (goalId : GoalUuid) (requestStamp : Time) (g : RawActiveGoal) : Prop :=
  (g.status = .accepted ∨ g.status = .executing) ∧
    if goalId.uuid = Vector.replicate 16 0 then
      requestStamp = ⟨0, 0⟩ ∨ g.stamp.nanos ≤ requestStamp.nanos
    else
      g.goalId = goalId ∨ requestStamp ≠ ⟨0, 0⟩ ∧ g.stamp.nanos ≤ requestStamp.nanos

instance (goalId : GoalUuid) (requestStamp : Time) :
    DecidablePred (Wants goalId requestStamp) := fun _ => by
  rw [Wants]
  infer_instance

theorem cancelable_iff (status : GoalStatusCode) :
    status.cancelable = true ↔ status = .accepted ∨ status = .executing := by
  cases status <;> simp [GoalStatusCode.cancelable]

theorem Time.isZero_iff (t : Time) : t.isZero = true ↔ t = ⟨0, 0⟩ := by
  cases t
  simp [Time.isZero]

theorem toNanos_le_iff (first second : Time) :
    first.toNanos ≤ second.toNanos ↔ first.nanos ≤ second.nanos := by
  rw [Int64.le_iff_toInt_le, Time.toNanos_toInt, Time.toNanos_toInt]

namespace ActionServerCore

variable {goalBuf resultBuf maxGoals : Nat} {core : ActionServerCore goalBuf resultBuf maxGoals}
  {goalId : GoalUuid} {requestStamp : Time}

variable {item : RawActiveGoal × Nat}

theorem position_iff {i : Nat} (distinct : (core.activeGoals.items.map RawActiveGoal.goalId).Nodup)
    (found : core.activeGoals.items.findIdx? (fun g => g.goalId = goalId) = some i)
    (member : item ∈ core.activeGoals.items.zipIdx) :
    item.2 = i ↔ item.1.goalId = goalId := by
  rcases List.findIdx?_eq_some_iff_getElem.mp found with ⟨inside, named, _⟩
  have named : core.activeGoals.items[i].goalId = goalId := of_decide_eq_true named
  have there : (core.activeGoals.items[i], i) ∈ core.activeGoals.items.zipIdx :=
    List.mem_zipIdx_iff_getElem?.mpr (List.getElem?_eq_getElem inside)
  constructor
  · intro same
    rw [eq_of_position member there same, named]
  · intro same
    rw [eq_of_key RawActiveGoal.goalId distinct member there (same.trans named.symm)]

/-- The goals a request selects, each with its position. -/
def selectedGoals (core : ActionServerCore goalBuf resultBuf maxGoals) (goalId : GoalUuid)
    (requestStamp : Time) : List (RawActiveGoal × Nat) :=
  flagged (core.selectCancelGoals goalId requestStamp).1 core.activeGoals.items

theorem selectCancelGoals_unknown (other : goalId.uuid ≠ Vector.replicate 16 0)
    (absent : ∀ g ∈ core.activeGoals.items, g.goalId ≠ goalId) :
    core.selectCancelGoals goalId requestStamp = (List.replicate maxGoals false,
      some (if ∃ c ∈ core.completedResults.items, c.goalId = goalId then .goalTerminated
        else .unknownGoal)) := by
  have missing : core.activeGoals.items.findIdx? (fun g => g.goalId = goalId) = none := by
    rw [List.findIdx?_eq_none_iff]
    intro g member
    simpa using absent g member
  rw [selectCancelGoals, if_neg other, missing]
  simp

theorem selectCancelGoals_known (named : goalId.uuid ≠ Vector.replicate 16 0 →
    ∃ g ∈ core.activeGoals.items, g.goalId = goalId) :
    (core.selectCancelGoals goalId requestStamp).2 = none := by
  rw [selectCancelGoals]
  by_cases zero : goalId.uuid = Vector.replicate 16 0
  · rw [if_pos zero]
  · rw [if_neg zero]
    rcases named zero with ⟨g, listed, same⟩
    cases found : core.activeGoals.items.findIdx? (fun g => g.goalId = goalId) with
    | none =>
      have absent := List.findIdx?_eq_none_iff.mp found g listed
      simp [same] at absent
    | some i =>
      dsimp only
      split <;> rfl

theorem selectBefore_getD {selected : List Bool} (member : item ∈ core.activeGoals.items.zipIdx)
    (below : item.2 < selected.length) :
    (core.selectBefore requestStamp selected).getD item.2 false = true ↔
      selected.getD item.2 false = true ∨ item.1.status.cancelable = true ∧
        (requestStamp = ⟨0, 0⟩ ∨ item.1.stamp.nanos ≤ requestStamp.nanos) := by
  rw [selectBefore, foldl_set_if, getD_raise _ _ below, Bool.or_eq_true, decide_eq_true_eq,
    mem_positions_iff member, Bool.and_eq_true, Bool.or_eq_true, decide_eq_true_eq,
    Time.isZero_iff, toNanos_le_iff]

theorem selected_iff (distinct : (core.activeGoals.items.map RawActiveGoal.goalId).Nodup)
    (named : goalId.uuid ≠ Vector.replicate 16 0 → ∃ g ∈ core.activeGoals.items, g.goalId = goalId)
    (member : item ∈ core.activeGoals.items.zipIdx) :
    (core.selectCancelGoals goalId requestStamp).1.getD item.2 false = true ↔
      Wants goalId requestStamp item.1 := by
  have below : item.2 < (List.replicate maxGoals false).length := by
    have inside := (List.mem_zipIdx member).2.1
    have room := core.activeGoals.fits
    rw [List.length_replicate]
    omega
  rw [Wants, ← cancelable_iff]
  by_cases zero : goalId.uuid = Vector.replicate 16 0
  · rw [selectCancelGoals, if_pos zero, if_pos zero, selectBefore_getD member below, getD_lowered]
    simp
  · cases found : core.activeGoals.items.findIdx? (fun g => g.goalId = goalId) with
    | none =>
      rcases named zero with ⟨g, listed, same⟩
      have absent := List.findIdx?_eq_none_iff.mp found g listed
      simp [same] at absent
    | some i =>
      have place := position_iff distinct found member
      -- the named goal has its flag raised before the loop
      have first : (if core.activeGoals.items[i]?.any fun g => g.status.cancelable then
          (List.replicate maxGoals false).set i true else List.replicate maxGoals false).getD
            item.2 false = true ↔ item.1.goalId = goalId ∧ item.1.status.cancelable = true := by
        have here := List.mem_zipIdx_iff_getElem?.mp member
        rw [← place]
        split
        case isTrue may =>
          rw [getD_set _ below, getD_lowered, Bool.false_or, decide_eq_true_eq]
          refine (and_iff_left_of_imp ?_).symm
          rintro rfl
          rw [here] at may
          exact may
        case isFalse not_ =>
          rw [getD_lowered]
          refine iff_of_false Bool.false_ne_true ?_
          rintro ⟨rfl, may⟩
          rw [here] at not_
          exact not_ may
      rw [selectCancelGoals, if_neg zero, if_neg zero, found]
      dsimp only
      by_cases stamp : requestStamp = ⟨0, 0⟩
      · rw [if_pos ((Time.isZero_iff _).mpr stamp), first]
        simp [stamp, and_comm]
      · rw [if_neg (mt (Time.isZero_iff _).mp stamp), selectBefore_getD member, first]
        · simp only [stamp, false_or, ne_eq, not_false_eq_true, true_and]
          tauto
        · split
          · rwa [List.length_set]
          · exact below

theorem cancelable_of_selected (member : item ∈ core.selectedGoals goalId requestStamp) :
    item.1.status.cancelable = true := by
  rcases List.mem_filter.mp member with ⟨listed, raised⟩
  have here := List.mem_zipIdx_iff_getElem?.mp listed
  have below : item.2 < (List.replicate maxGoals false).length := by
    have inside := (List.mem_zipIdx listed).2.1
    have room := core.activeGoals.fits
    rw [List.length_replicate]
    omega
  rw [selectCancelGoals] at raised
  split at raised
  case isTrue =>
    rw [selectBefore_getD listed below, getD_lowered] at raised
    exact (raised.resolve_left Bool.false_ne_true).1
  case isFalse =>
    cases found : core.activeGoals.items.findIdx? (fun g => g.goalId = goalId) with
    | none =>
      rw [found] at raised
      dsimp only at raised
      rw [getD_lowered] at raised
      cases raised
    | some i =>
      have first : (if core.activeGoals.items[i]?.any fun g => g.status.cancelable then
          (List.replicate maxGoals false).set i true else List.replicate maxGoals false).getD
            item.2 false = true → item.1.status.cancelable = true := by
        intro flag
        split at flag
        case isTrue may =>
          rw [getD_set _ below, getD_lowered, Bool.false_or, decide_eq_true_eq] at flag
          rw [← flag, here] at may
          exact may
        case isFalse =>
          rw [getD_lowered] at flag
          cases flag
      rw [found] at raised
      dsimp only at raised
      split at raised
      case isTrue => exact first raised
      case isFalse =>
        rw [selectBefore_getD listed] at raised
        · exact raised.elim first And.left
        · split
          · rwa [List.length_set]
          · exact below

theorem selectedGoals_eq (distinct : (core.activeGoals.items.map RawActiveGoal.goalId).Nodup)
    (named : goalId.uuid ≠ Vector.replicate 16 0 →
      ∃ g ∈ core.activeGoals.items, g.goalId = goalId) :
    (core.selectedGoals goalId requestStamp).map Prod.fst =
      core.activeGoals.items.filter fun g => decide (Wants goalId requestStamp g) := by
  have same : core.selectedGoals goalId requestStamp = core.activeGoals.items.zipIdx.filter
      ((fun g => decide (Wants goalId requestStamp g)) ∘ Prod.fst) := by
    apply List.filter_congr
    intro item member
    rw [Bool.eq_iff_iff, selected_iff distinct named member, Function.comp_apply, decide_eq_true_eq]
  calc (core.selectedGoals goalId requestStamp).map Prod.fst
      = (core.activeGoals.items.zipIdx.map Prod.fst).filter
          fun g => decide (Wants goalId requestStamp g) := by rw [same, List.filter_map]
    _ = core.activeGoals.items.filter fun g => decide (Wants goalId requestStamp g) := by
          rw [List.zipIdx_map_fst]

section Answers

variable {σ : Type} (cancelHandler : σ → GoalUuid → GoalStatusCode → CancelResponse × σ)

/-- The handler's answer about one goal. -/
def asks (s : σ) (g : RawActiveGoal) : Bool × σ :=
  let answer := cancelHandler s g.goalId g.status
  (answer.1 = .accept, answer.2)

/-- What the handler makes of the selected goals, asked one after the other. -/
def consulted (core : ActionServerCore goalBuf resultBuf maxGoals) (goalId : GoalUuid)
    (requestStamp : Time) (s : σ) : List (RawActiveGoal × Nat) × σ :=
  consult (fun s item => asks cancelHandler s item.1) (core.selectedGoals goalId requestStamp) s

theorem consulted_sublist (s : σ) :
    (core.consulted cancelHandler goalId requestStamp s).1.Sublist core.activeGoals.items.zipIdx :=
  (consult_sublist _ _ s).trans List.filter_sublist

theorem askHandler_eq (s : σ) :
    core.askHandler cancelHandler (core.selectCancelGoals goalId requestStamp).1 s =
      (raise (List.replicate maxGoals false)
          ((core.consulted cancelHandler goalId requestStamp s).1.map Prod.snd),
        !(core.consulted cancelHandler goalId requestStamp s).1.isEmpty,
        (core.consulted cancelHandler goalId requestStamp s).2) := by
  have loop := foldl_consult (asks cancelHandler) (core.selectedGoals goalId requestStamp)
    (List.replicate maxGoals false) false s
  simp only [asks, decide_eq_true_eq, Bool.false_or] at loop
  rw [askHandler, ← List.foldl_filter]
  exact loop

end Answers

theorem flagged_setCanceling {canceled : List (RawActiveGoal × Nat)}
    (sub : canceled.Sublist core.activeGoals.items.zipIdx) :
    (flagged (raise (List.replicate maxGoals false) (canceled.map Prod.snd))
      (core.setCanceling (raise (List.replicate maxGoals false)
        (canceled.map Prod.snd))).activeGoals.items).map Prod.fst =
      canceled.map fun item => { item.1 with status := .canceling } := by
  have same := flagged_raise sub core.activeGoals.fits
  rw [setCanceling, flagged_map, same, List.map_map]
  apply List.map_congr_left
  intro item member
  have raised : item ∈ flagged (raise (List.replicate maxGoals false) (canceled.map Prod.snd))
      core.activeGoals.items := by
    rw [same]
    exact member
  exact if_pos (List.mem_filter.mp raised).2

end ActionServerCore

end NanoRos
