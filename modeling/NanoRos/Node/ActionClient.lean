import NanoRos.Node.GetResult
import NanoRos.Rmw.Correlation

/-! The sending half of an action client: a goal id from a counter, the request framed behind it,
and that the server reads the same id back. -/

namespace NanoRos

open LittleEndian Memory

def maxConcurrentGoals : Nat := 4

/-- A backend's client: how it answers the `n`-th request, and what it has sent. -/
structure RmwServiceClient where
  answers : Nat → Except TransportError Int64
  calls : Nat
  sent : List (Int64 × List UInt8)

def RmwServiceClient.sendRequestRaw (c : RmwServiceClient) (data : List UInt8) :
    Except TransportError Int64 × RmwServiceClient :=
  match c.answers c.calls with
  | .ok seq => (.ok seq, { c with calls := c.calls + 1, sent := c.sent ++ [(seq, data)] })
  | .error e => (.error e, { c with calls := c.calls + 1 })

structure ActionClientCore (goalBuf : Nat) where
  sendGoalClient : RmwServiceClient
  goalBuffer : List UInt8
  goalCounter : UInt64
  pendingSendGoal : RequestCorrelator GoalUuid maxConcurrentGoals

/-- The counter in the first eight bytes, zeros behind it. -/
def counterGoalId (counter : UInt64) : GoalUuid where
  uuid := ⟨(leBytes 8 counter.toNat ++ List.replicate 8 0).toArray, by simp⟩

def writeGoalId (writer : CdrWriter) (goalId : GoalUuid) : Except NodeError CdrWriter :=
  goalId.uuid.toList.foldlM (fun (writer : CdrWriter) b =>
    (writer.writeU8 b).mapError fun _ => NodeError.serialization) writer

namespace ActionClientCore

variable {goalBuf : Nat}

def new (sendGoalClient : RmwServiceClient) : ActionClientCore goalBuf where
  sendGoalClient := sendGoalClient
  goalBuffer := List.replicate goalBuf 0
  goalCounter := 0
  pendingSendGoal := .new

def sendGoalRaw (core : ActionClientCore goalBuf) (goalCdr : List UInt8) :
    Except NodeError GoalUuid × ActionClientCore goalBuf :=
  match core.pendingSendGoal.canSend with
  | .error _ => (.error .requestInFlight, core)
  | .ok _ =>
    let core : ActionClientCore goalBuf := { core with goalCounter := core.goalCounter + 1 }
    let goalId := counterGoalId core.goalCounter
    match CdrWriter.newWithHeader core.goalBuffer with
    | .error _ => (.error .bufferTooSmall, core)
    | .ok writer =>
      match writeGoalId writer goalId with
      | .error e => (.error e, core)
      | .ok writer =>
        let pos := writer.position
        if pos + goalCdr.length > goalBuf then
          (.error .bufferTooSmall, { core with goalBuffer := writer.buf })
        else
          let core : ActionClientCore goalBuf :=
            { core with goalBuffer := overwrite writer.buf pos goalCdr }
          let reqLen := pos + goalCdr.length
          match core.sendGoalClient.sendRequestRaw (core.goalBuffer.take reqLen) with
          | (.error _, client) =>
            (.error .serviceRequestFailed, { core with sendGoalClient := client })
          | (.ok seq, client) => (.ok goalId, { core with
              sendGoalClient := client
              pendingSendGoal := match core.pendingSendGoal.insert seq goalId with
                | .ok pending => pending
                | .error _ => core.pendingSendGoal })

end ActionClientCore

theorem writeGoalId_ok (writer : CdrWriter) (ready : writer.Ready) (goalId : GoalUuid)
    (fits : writer.pos + 16 ≤ writer.buf.length) :
    writeGoalId writer goalId = .ok (writer.after goalId.uuid.toList) := by
  have bytewise (bytes : List UInt8) (writer : CdrWriter) (ready : writer.Ready)
      (fits : writer.pos + bytes.length ≤ writer.buf.length) :
      bytes.foldlM (fun (writer : CdrWriter) b =>
        (writer.writeU8 b).mapError fun _ => NodeError.serialization) writer =
        .ok (writer.after bytes) := by
    induction bytes generalizing writer with
    | nil =>
      rw [List.foldlM_nil, CdrWriter.after, overwrite_nil]
      rfl
    | cons b bytes ih =>
      rw [List.length_cons] at fits
      have first : writer.pos + [b].length ≤ writer.buf.length := by
        simp only [List.length_singleton]
        omega
      have written : (writer.writeU8 b).mapError (fun _ => NodeError.serialization) =
          .ok (writer.after [b]) := by
        rw [CdrWriter.writeU8, CdrWriter.put_eq_ok writer ready [b] first]
        rfl
      rw [List.foldlM_cons, written, ok_bind, ih _ (ready.after [b] first),
        CdrWriter.after_after writer [b] bytes first]
      · rfl
      · rw [CdrWriter.after_pos, CdrWriter.after, length_overwrite _ _ _ first]
        simp only [List.length_singleton]
        omega
  apply bytewise _ writer ready
  rw [Vector.length_toList]
  exact fits

/-- `[CDR header][GoalUuid][goal]`: the request, wherever its goal bytes come from. -/
def goalFrame (goalId : GoalUuid) (goalCdr : List UInt8) : List UInt8 :=
  cdrLeHeader ++ goalId.uuid.toList ++ goalCdr

def goalPayloadOffset : Nat := 20

theorem length_goalFrame (goalId : GoalUuid) (goalCdr : List UInt8) :
    (goalFrame goalId goalCdr).length = goalPayloadOffset + goalCdr.length := by
  rw [goalFrame, List.length_append, List.length_append, Vector.length_toList]
  rfl

namespace ActionClientCore

open ActionServerCore (replyWriter replyWriter_ready length_replyWriter newWithHeader_eq_ok)

variable {goalBuf : Nat}

/-- The client after a request went out. -/
def requested (core : ActionClientCore goalBuf) (buffer : List UInt8) (goalId : GoalUuid) :
    Except TransportError Int64 × RmwServiceClient →
      Except NodeError GoalUuid × ActionClientCore goalBuf
  | (.error _, client) => (.error .serviceRequestFailed, { core with
      goalCounter := core.goalCounter + 1
      goalBuffer := buffer
      sendGoalClient := client })
  | (.ok seq, client) => (.ok goalId, { core with
      goalCounter := core.goalCounter + 1
      goalBuffer := buffer
      sendGoalClient := client
      pendingSendGoal := match core.pendingSendGoal.insert seq goalId with
        | .ok pending => pending
        | .error _ => core.pendingSendGoal })

theorem goalFrame_written (buf : List UInt8) (goalId : GoalUuid) (cdr : List UInt8)
    (room : goalPayloadOffset + cdr.length ≤ buf.length) :
    ∃ opened written, CdrWriter.newWithHeader buf = .ok opened ∧
      writeGoalId opened goalId = .ok written ∧ written.position = goalPayloadOffset ∧
      overwrite written.buf goalPayloadOffset cdr = overwrite buf 0 (goalFrame goalId cdr) := by
  rw [goalPayloadOffset] at room ⊢
  have open4 : 4 ≤ buf.length := by omega
  have ready := replyWriter_ready buf open4
  have idFits : (replyWriter buf).pos + 16 ≤ (replyWriter buf).buf.length := by
    rw [length_replyWriter buf open4]
    change 4 + 16 ≤ _
    omega
  refine ⟨_, _, newWithHeader_eq_ok buf open4, writeGoalId_ok _ ready goalId idFits, ?_, ?_⟩
  · rw [CdrWriter.position, CdrWriter.after_pos, Vector.length_toList]
    rfl
  · have first := overwrite_append buf 0 cdrLeHeader goalId.uuid.toList
      (by rw [Nat.zero_add]; exact open4)
    have second := overwrite_append buf 0 (cdrLeHeader ++ goalId.uuid.toList) cdr (by
      rw [Nat.zero_add, List.length_append, Vector.length_toList]
      change 4 + 16 ≤ _
      omega)
    rw [List.length_append, Vector.length_toList, ← first] at second
    exact second

theorem take_goalFrame (buf : List UInt8) (goalId : GoalUuid) (cdr : List UInt8) :
    (overwrite buf 0 (goalFrame goalId cdr)).take (goalPayloadOffset + cdr.length) =
      goalFrame goalId cdr := by
  have whole := take_overwrite buf 0 (goalFrame goalId cdr) (Nat.zero_le _)
  rwa [Nat.zero_add, length_goalFrame, List.take_zero, List.nil_append] at whole

theorem sendGoalRaw_fits (core : ActionClientCore goalBuf) (goalCdr : List UInt8)
    (sized : core.goalBuffer.length = goalBuf) (free : core.pendingSendGoal.canSend = .ok ())
    (fits : goalPayloadOffset + goalCdr.length ≤ goalBuf) :
    ∃ buffer, buffer.length = goalBuf ∧
      core.sendGoalRaw goalCdr = core.requested buffer (counterGoalId (core.goalCounter + 1))
        (core.sendGoalClient.sendRequestRaw
          (goalFrame (counterGoalId (core.goalCounter + 1)) goalCdr)) := by
  rcases goalFrame_written core.goalBuffer (counterGoalId (core.goalCounter + 1)) goalCdr
    (by rw [sized]; exact fits) with ⟨opened, written, header, id, position, joined⟩
  have whole := take_goalFrame core.goalBuffer (counterGoalId (core.goalCounter + 1)) goalCdr
  refine ⟨overwrite core.goalBuffer 0
    (goalFrame (counterGoalId (core.goalCounter + 1)) goalCdr), ?_, ?_⟩
  · rw [length_overwrite _ _ _ (by rw [Nat.zero_add, length_goalFrame, sized]; exact fits), sized]
  · simp only [sendGoalRaw, free, header, id, position, if_neg (Nat.not_lt.mpr fits)]
    rw [joined, whole]
    rcases core.sendGoalClient.sendRequestRaw
      (goalFrame (counterGoalId (core.goalCounter + 1)) goalCdr) with ⟨_ | _, client⟩
    · rfl
    · rfl

end ActionClientCore

section GoalId

variable {r : CdrReader} {goalId : GoalUuid}

theorem readU8_of_goalId (ready : r.Ready) (holds : r.Holds (Wire.lit goalId.uuid.toList))
    (k : Nat) (inside : k < 16) : { r with pos := r.pos + k }.readU8 =
      .ok (goalId.uuid[k], { r with pos := r.pos + (k + 1) }) := by
  have room := holds.length_le ready
  rw [Wire.lit, Vector.length_toList] at room
  have found : r.buf[r.pos + k]? = some goalId.uuid[k] := by
    rw [← List.getElem?_drop]
    rcases holds with ⟨rest, split⟩
    rw [← split, List.getElem?_append_left (by rw [Wire.lit, Vector.length_toList]; exact inside)]
    simp [Wire.lit, inside]
  rw [CdrReader.readU8, CdrReader.remaining, if_neg (by dsimp only; omega)]
  dsimp only
  rw [List.getD_eq_getElem?_getD, found]
  rfl

theorem readGoalId_from (ready : r.Ready) (holds : r.Holds (Wire.lit goalId.uuid.toList))
    (left k : Nat) (whole : k + left = 16) (read : GoalUuid)
    (placed : ∀ i (inside : i < 16), i < k → read.uuid[i] = goalId.uuid[i]) :
    ((List.finRange 16).drop k).foldlM (fun (read : GoalUuid × CdrReader) (i : Fin 16) =>
      match read.2.readU8 with
      | .ok (byte, reader) => .ok (⟨read.1.uuid.set i.val byte i.isLt⟩, reader)
      | .error _ => .error (.transport .deserializationError)) (read, { r with pos := r.pos + k }) =
      (.ok (goalId, { r with pos := r.pos + 16 }) : Except NodeError (GoalUuid × CdrReader)) := by
  induction left generalizing k read with
  | zero =>
    have all : k = 16 := whole
    subst all
    have same : read = goalId := by
      rcases read with ⟨uuid⟩
      rcases goalId with ⟨uuid'⟩
      congr
      apply Vector.ext
      intro i inside
      exact placed i inside inside
    rw [List.drop_of_length_le (by simp), same]
    rfl
  | succ left ih =>
    have inside : k < 16 := by omega
    rw [List.drop_eq_getElem_cons (by simp; exact inside), List.foldlM_cons]
    simp only [List.getElem_finRange, Fin.cast_mk, readU8_of_goalId ready holds k inside, ok_bind]
    apply ih (k + 1) (by omega)
    intro i inside' before
    rw [Vector.getElem_set]
    split
    case isTrue same =>
      subst same
      rfl
    case isFalse other => exact placed i inside' (by omega)

theorem readGoalId_of_holds (ready : r.Ready) (holds : r.Holds (Wire.lit goalId.uuid.toList)) :
    readGoalId r = .ok (goalId, { r with pos := r.pos + 16 }) :=
  readGoalId_from ready holds 16 0 (Nat.zero_add 16) default (by
    intro i _ before
    cases before)

end GoalId

variable (goalId : GoalUuid)

variable (goalCdr : List UInt8)

theorem newWithHeader_goalFrame :
    CdrReader.newWithHeader (goalFrame goalId goalCdr) =
      .ok ⟨goalFrame goalId goalCdr, 4, 4, .xcdr1⟩ := by
  have long : ¬ (goalFrame goalId goalCdr).length < 4 := by
    rw [length_goalFrame, goalPayloadOffset]
    omega
  rw [CdrReader.newWithHeader, if_neg long]
  rfl

theorem goalFrame_holds :
    CdrReader.Holds ⟨goalFrame goalId goalCdr, 4, 4, .xcdr1⟩ (Wire.lit goalId.uuid.toList) := by
  refine ⟨goalCdr, ?_⟩
  rw [goalFrame, List.append_assoc]
  rfl

theorem readGoalId_goalFrame :
    readGoalId ⟨goalFrame goalId goalCdr, 4, 4, .xcdr1⟩ =
      .ok (goalId, ⟨goalFrame goalId goalCdr, goalPayloadOffset, 4, .xcdr1⟩) := by
  apply readGoalId_of_holds _ (goalFrame_holds goalId goalCdr)
  refine ⟨Nat.le_refl _, ?_⟩
  change 4 ≤ (goalFrame goalId goalCdr).length
  rw [length_goalFrame, goalPayloadOffset]
  omega

end NanoRos
