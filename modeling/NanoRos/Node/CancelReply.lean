import NanoRos.Node.CancelGoals

/-! The reply to a `CancelGoal` request: the writer emits one wire, whose offsets are the constants
the client reads by, and it emits it whole or not at all. -/

namespace NanoRos

open LittleEndian Memory

section Reply

def goalInfoWire (g : RawActiveGoal) : Wire UInt8 :=
  (Wire.lit g.goalId.uuid.toList).andThen
    ((cdrWord .xcdr1 4 g.stamp.sec.toUInt32.toNat).andThen (cdrWord .xcdr1 4 g.stamp.nanosec.toNat))

def cancelReplyWire (code : CancelResponseCode) (count : UInt32) (goals : List RawActiveGoal) :
    Wire UInt8 :=
  (Wire.lit [code.toI8.toUInt8]).andThen
    ((cdrWord .xcdr1 4 count.toNat).andThen (Wire.many goalInfoWire goals))

theorem mapError_bind {α β ε ε' : Type} (f : ε → ε') (x : Except ε α) (g : α → Except ε β) :
    (x >>= g).mapError f = (x.mapError f >>= fun a => (g a).mapError f) := by
  cases x <;> rfl

theorem emit_bind {w : CdrWriter} (ready : w.Ready) (plain : w.version = .xcdr1)
    (first second : Wire UInt8) (next : CdrWriter → Except NodeError CdrWriter)
    (spec : ∀ w : CdrWriter, w.Ready → w.version = .xcdr1 →
      next w = (w.emit second).mapError fun _ => NodeError.serialization) :
    ((w.emit first).mapError (fun _ => NodeError.serialization) >>= next) =
      (w.emit (first.andThen second)).mapError fun _ => NodeError.serialization := by
  rw [← CdrWriter.emit_emit w ready, mapError_bind]
  cases done : w.emit first with
  | error e => rfl
  | ok written =>
    rcases CdrWriter.emit_eq_ok ready done with ⟨rfl, fits, ready'⟩
    exact spec _ ready' plain

variable {w : CdrWriter} (ready : w.Ready) (plain : w.version = .xcdr1)
include ready plain

theorem writeGoalId_eq_emit (goalId : GoalUuid) :
    writeGoalId w goalId =
      (w.emit (Wire.lit goalId.uuid.toList)).mapError fun _ => NodeError.serialization := by
  have bytewise (bytes : List UInt8) (w : CdrWriter) (ready : w.Ready)
      (plain : w.version = .xcdr1) :
      bytes.foldlM (fun (writer : CdrWriter) b =>
        (writer.writeU8 b).mapError fun _ => NodeError.serialization) w =
        (w.emit (Wire.lit bytes)).mapError fun _ => NodeError.serialization := by
    induction bytes generalizing w with
    | nil =>
      have nothing := CdrWriter.emit_empty w ready
      change w.emit (Wire.lit []) = _ at nothing
      rw [nothing]
      rfl
    | cons b bytes ih =>
      rw [List.foldlM_cons]
      exact emit_bind ready plain (Wire.lit [b]) (Wire.lit bytes) _ ih
  exact bytewise goalId.uuid.toList w ready plain

theorem writeGoalInfo_eq_emit (g : RawActiveGoal) :
    writeGoalInfo w g = (w.emit (goalInfoWire g)).mapError fun _ => NodeError.serialization := by
  rw [writeGoalInfo, writeGoalId_eq_emit ready plain]
  apply emit_bind ready plain
  intro w ready plain
  rw [CdrWriter.writeI32, CdrWriter.writeU32, CdrWriter.writeWord_eq_emit w ready, plain]
  apply emit_bind ready plain
  intro w ready plain
  rw [CdrWriter.writeU32, CdrWriter.writeWord_eq_emit w ready, plain]

theorem writeGoalInfos_eq_emit (goals : List RawActiveGoal) :
    goals.foldlM writeGoalInfo w =
      (w.emit (Wire.many goalInfoWire goals)).mapError fun _ => NodeError.serialization := by
  induction goals generalizing w with
  | nil =>
    rw [Wire.many, CdrWriter.emit_empty w ready]
    rfl
  | cons g goals ih =>
    rw [List.foldlM_cons, writeGoalInfo_eq_emit ready plain]
    exact emit_bind ready plain _ _ _ fun w ready plain => ih ready plain

end Reply

/-- Sixteen bytes and two words, at an offset where nothing is padded. -/
def goalInfoBytes (g : RawActiveGoal) : List UInt8 :=
  g.goalId.uuid.toList ++ (leBytes 4 g.stamp.sec.toUInt32.toNat ++ leBytes 4 g.stamp.nanosec.toNat)

theorem length_goalInfoBytes (g : RawActiveGoal) : (goalInfoBytes g).length = goalInfoLen := by
  simp [goalInfoBytes, goalInfoLen]

def cancelReplyBytes (code : CancelResponseCode) (count : UInt32) (goals : List RawActiveGoal) :
    List UInt8 :=
  cdrLeHeader ++ ([code.toI8.toUInt8, 0, 0, 0] ++
    (leBytes 4 count.toNat ++ goals.flatMap goalInfoBytes))

theorem length_flatMap_goalInfoBytes (goals : List RawActiveGoal) :
    (goals.flatMap goalInfoBytes).length = goals.length * goalInfoLen := by
  induction goals with
  | nil => exact (Nat.zero_mul _).symm
  | cons g goals ih =>
    rw [List.flatMap_cons, List.length_append, ih, length_goalInfoBytes, List.length_cons,
      Nat.add_mul, Nat.one_mul, Nat.add_comm]

theorem length_cancelReplyBytes (code : CancelResponseCode) (count : UInt32)
    (goals : List RawActiveGoal) :
    (cancelReplyBytes code count goals).length = cancelGoalsOffset + goals.length * goalInfoLen := by
  simp only [cancelReplyBytes, List.length_append, length_flatMap_goalInfoBytes, length_leBytes,
    List.length_cons, List.length_nil, cdrLeHeader, cancelGoalsOffset]
  omega

theorem cdrWord_aligned {value offset : Nat} (aligned : offset % 4 = 0) :
    cdrWord .xcdr1 4 value offset = leBytes 4 value := by
  simp [cdrWord, Wire.andThen, Wire.align, Wire.lit, alignCap, padding, aligned]

theorem goalInfoWire_aligned (g : RawActiveGoal) {offset : Nat} (aligned : offset % 4 = 0) :
    goalInfoWire g offset = goalInfoBytes g := by
  have behind : (offset + 16) % 4 = 0 := by omega
  have last : (offset + 16 + 4) % 4 = 0 := by omega
  simp only [goalInfoWire, Wire.andThen, Wire.lit, Vector.length_toList, cdrWord_aligned behind,
    length_leBytes, cdrWord_aligned last, goalInfoBytes]

theorem many_goalInfoWire (goals : List RawActiveGoal) {offset : Nat} (aligned : offset % 4 = 0) :
    Wire.many goalInfoWire goals offset = goals.flatMap goalInfoBytes := by
  induction goals generalizing offset with
  | nil => rfl
  | cons g goals ih =>
    have next : (offset + goalInfoLen) % 4 = 0 := by
      rw [goalInfoLen]
      omega
    rw [Wire.many, Wire.andThen, goalInfoWire_aligned g aligned, length_goalInfoBytes, ih next,
      List.flatMap_cons]

theorem cancelReplyWire_zero (code : CancelResponseCode) (count : UInt32)
    (goals : List RawActiveGoal) :
    cdrLeHeader ++ cancelReplyWire code count goals 0 = cancelReplyBytes code count goals := by
  have word : cdrWord .xcdr1 4 count.toNat 1 = [0, 0, 0] ++ leBytes 4 count.toNat := by
    simp [cdrWord, Wire.andThen, Wire.align, Wire.lit, alignCap, padding]
  have goalsAt : Wire.many goalInfoWire goals 8 = goals.flatMap goalInfoBytes :=
    many_goalInfoWire goals rfl
  simp [cancelReplyWire, Wire.andThen, Wire.lit, word, goalsAt, cancelReplyBytes]

section Decoded

variable (code : CancelResponseCode) (goals : List RawActiveGoal)

theorem slice_cancelReplyBytes (count : UInt32) (pos : Nat) (bytes rest : List UInt8)
    (there : (leBytes 4 count.toNat ++ goals.flatMap goalInfoBytes).drop pos = bytes ++ rest) :
    slice (cancelReplyBytes code count goals) (8 + pos) bytes.length = bytes := by
  apply slice_of_isPrefix_drop
  refine ⟨rest, ?_⟩
  rw [cancelReplyBytes, ← List.append_assoc, ← List.drop_drop]
  exact there.symm

theorem drop_flatMap_goalInfoBytes {i : Nat} {g : RawActiveGoal} (listed : goals[i]? = some g) :
    ∃ rest, (goals.flatMap goalInfoBytes).drop (i * goalInfoLen) = goalInfoBytes g ++ rest := by
  induction goals generalizing i with
  | nil => simp at listed
  | cons first goals ih =>
    rw [List.flatMap_cons]
    cases i with
    | zero =>
      cases listed
      exact ⟨_, by rw [Nat.zero_mul, List.drop_zero]⟩
    | succ i =>
      rw [List.getElem?_cons_succ] at listed
      rcases ih listed with ⟨rest, there⟩
      refine ⟨rest, ?_⟩
      rw [Nat.add_mul, Nat.one_mul, Nat.add_comm, ← List.drop_drop, ← length_goalInfoBytes first,
        List.drop_left, length_goalInfoBytes]
      exact there

theorem goalInfo_decodes (g : RawActiveGoal) :
    (⟨Vector.ofFn fun k => (goalInfoBytes g).getD k.val 0⟩ : GoalUuid) = g.goalId ∧
      (UInt32.ofNat (leNat (slice (goalInfoBytes g) 16 4))).toInt32 = g.stamp.sec ∧
      UInt32.ofNat (leNat (slice (goalInfoBytes g) 20 4)) = g.stamp.nanosec := by
  have id : g.goalId.uuid.toList.length = 16 := Vector.length_toList
  have sec : slice (goalInfoBytes g) 16 4 = leBytes 4 g.stamp.sec.toUInt32.toNat := by
    rw [slice, goalInfoBytes, List.drop_left' id]
    exact List.take_left' (length_leBytes 4 _)
  have nanosec : slice (goalInfoBytes g) 20 4 = leBytes 4 g.stamp.nanosec.toNat := by
    have front : (g.goalId.uuid.toList ++ leBytes 4 g.stamp.sec.toUInt32.toNat).length = 20 := by
      simp
    rw [slice, goalInfoBytes, ← List.append_assoc, List.drop_left' front]
    exact List.take_of_length_le (by simp)
  have small (word : UInt32) : leNat (leBytes 4 word.toNat) = word.toNat := by
    rw [leNat_leBytes]
    exact Nat.mod_eq_of_lt word.toNat_lt
  refine ⟨?_, ?_, ?_⟩
  · rcases g with ⟨⟨uuid⟩, status, stamp⟩
    congr 1
    apply Vector.ext
    intro k inside
    rw [Vector.getElem_ofFn, goalInfoBytes, List.getD_eq_getElem?_getD,
      List.getElem?_append_left (by simpa using inside)]
    simp [inside]
  · rw [sec, small, UInt32.ofNat_toNat]
    rfl
  · rw [nanosec, small, UInt32.ofNat_toNat]

theorem cancelReply_decodes (few : goals.length < 2 ^ 32) {reply : List UInt8}
    (written : reply = cancelReplyBytes code (UInt32.ofNat goals.length) goals) :
    cancelReturnCode reply = some code.toI8 ∧ cancelGoalsCount reply = some goals.length ∧
      ∀ i, cancelGoalInfo reply i =
        goals[i]?.map fun g => (g.goalId, g.stamp.sec, g.stamp.nanosec) := by
  have length := length_cancelReplyBytes code (UInt32.ofNat goals.length) goals
  rw [← written, cancelGoalsOffset, goalInfoLen] at length
  have number : (UInt32.ofNat goals.length).toNat = goals.length := UInt32.toNat_ofNat_of_lt' few
  have counted : cancelGoalsCount reply = some goals.length := by
    have there := slice_cancelReplyBytes code goals (UInt32.ofNat goals.length) 0
      (leBytes 4 (UInt32.ofNat goals.length).toNat) _ rfl
    rw [length_leBytes, number, Nat.add_zero, ← written] at there
    have read : leNat (slice reply 8 4) = goals.length := by
      rw [there, leNat_leBytes]
      exact Nat.mod_eq_of_lt few
    rw [cancelGoalsCount, cancelGoalsCountOffset, read, goalInfoLen, cancelGoalsOffset,
      if_neg (by omega)]
    dsimp only
    rw [if_neg (by rw [usizeMax]; omega), if_pos (by omega)]
  refine ⟨?_, counted, ?_⟩
  · subst written
    cases code <;> rfl
  · intro i
    rw [cancelGoalInfo, counted, Option.bind_some]
    cases listed : goals[i]? with
    | none => rw [if_pos (List.getElem?_eq_none_iff.mp listed), Option.map_none]
    | some g =>
      have inside := (List.getElem?_eq_some_iff.mp listed).1
      rcases drop_flatMap_goalInfoBytes goals listed with ⟨rest, there⟩
      have block : slice reply (12 + i * 24) 24 = goalInfoBytes g := by
        have found := slice_cancelReplyBytes code goals (UInt32.ofNat goals.length)
          (4 + i * goalInfoLen) (goalInfoBytes g) rest (by
            rw [← List.drop_drop, List.drop_left' (length_leBytes 4 _)]
            exact there)
        rw [length_goalInfoBytes, ← Nat.add_assoc, ← written] at found
        exact found
      rcases goalInfo_decodes g with ⟨id, sec, nanosec⟩
      rw [if_neg (by omega), cancelGoalsOffset, goalInfoLen, if_neg (by omega), block]
      dsimp only
      rw [id, sec, nanosec, Option.map_some]

end Decoded

namespace ActionServerCore

variable {goalBuf resultBuf maxGoals : Nat} {core : ActionServerCore goalBuf resultBuf maxGoals}
  {goalId : GoalUuid} {requestStamp : Time}

variable {canceled : List (RawActiveGoal × Nat)}

theorem count_canceling (sub : canceled.Sublist core.activeGoals.items.zipIdx) :
    (raise (List.replicate maxGoals false) (canceled.map Prod.snd)).count true =
      canceled.length := by
  have distinct : (core.activeGoals.items.zipIdx.map Prod.snd).Nodup := by
    rw [List.zipIdx_map_snd]
    exact List.nodup_range'
  rw [count_raise maxGoals (distinct.sublist (sub.map _)), List.length_map]
  intro i member
  rcases List.mem_map.mp member with ⟨item, listed, rfl⟩
  have below := (List.mem_zipIdx (sub.subset listed)).2.1
  have room := core.activeGoals.fits
  omega

theorem writeCanceling_eq (sub : canceled.Sublist core.activeGoals.items.zipIdx) (w : CdrWriter) :
    (core.setCanceling (raise (List.replicate maxGoals false)
        (canceled.map Prod.snd))).activeGoals.items.zipIdx.foldlM (fun writer item =>
      if (raise (List.replicate maxGoals false) (canceled.map Prod.snd)).getD item.2 false then
        writeGoalInfo writer item.1 else pure writer) w =
      (canceled.map Prod.fst).foldlM writeGoalInfo w := by
  have picked := flagged_setCanceling sub
  rw [← List.foldlM_filter]
  rw [flagged] at picked
  calc _ = ((canceled.map fun item => { item.1 with status := GoalStatusCode.canceling }).foldlM
          writeGoalInfo w : Except NodeError CdrWriter) := by
        rw [← picked, List.foldlM_map]
    _ = (canceled.map Prod.fst).foldlM writeGoalInfo w := by
        rw [List.foldlM_map, List.foldlM_map]
        rfl

theorem cancelReply_eq (code : CancelResponseCode)
    (sub : canceled.Sublist core.activeGoals.items.zipIdx) {canceling : List Bool}
    (raised : canceling = raise (List.replicate maxGoals false) (canceled.map Prod.snd))
    {bytes : List UInt8} (reply : bytes =
      cancelReplyBytes code (UInt32.ofNat canceled.length) (canceled.map Prod.fst)) :
    if bytes.length ≤ core.goalBuffer.length then
      (core.setCanceling canceling).cancelReply code canceling = .ok (bytes.length,
        { core.setCanceling canceling with goalBuffer := overwrite core.goalBuffer 0 bytes })
    else ∃ e, (core.setCanceling canceling).cancelReply code canceling = .error e := by
  have long : 12 ≤ bytes.length := by
    rw [reply, length_cancelReplyBytes, cancelGoalsOffset]
    omega
  have same : (core.setCanceling canceling).goalBuffer = core.goalBuffer := rfl
  by_cases open4 : 4 ≤ core.goalBuffer.length
  · have ready := replyWriter_ready core.goalBuffer open4
    have body : ((replyWriter core.goalBuffer).writeI8 code.toI8).mapError
          (fun _ => NodeError.serialization) >>= (fun writer =>
        (writer.writeU32 (UInt32.ofNat (canceling.count true))).mapError
            (fun _ => NodeError.serialization) >>= fun writer =>
          (core.setCanceling canceling).activeGoals.items.zipIdx.foldlM (fun writer item =>
            if canceling.getD item.2 false then writeGoalInfo writer item.1 else pure writer)
            writer) =
        ((replyWriter core.goalBuffer).emit (cancelReplyWire code (UInt32.ofNat canceled.length)
          (canceled.map Prod.fst))).mapError fun _ => NodeError.serialization := by
      subst raised
      rw [count_canceling sub]
      refine emit_bind ready rfl (Wire.lit [code.toI8.toUInt8]) _ _ ?_
      intro w ready plain
      rw [CdrWriter.writeU32, CdrWriter.writeWord_eq_emit w ready, plain]
      apply emit_bind ready plain
      intro w ready plain
      rw [writeCanceling_eq sub, writeGoalInfos_eq_emit ready plain]
    have whole : bytes = cdrLeHeader ++ cancelReplyWire code (UInt32.ofNat canceled.length)
        (canceled.map Prod.fst) 0 := reply.trans (cancelReplyWire_zero _ _ _).symm
    have length : bytes.length = 4 + (cancelReplyWire code (UInt32.ofNat canceled.length)
        (canceled.map Prod.fst) 0).length := by
      rw [whole, List.length_append]
      rfl
    have written : (core.setCanceling canceling).cancelReply code canceling =
        ((replyWriter core.goalBuffer).emit (cancelReplyWire code (UInt32.ofNat canceled.length)
          (canceled.map Prod.fst))).mapError (fun _ => NodeError.serialization) >>= fun writer =>
        pure (writer.position, { core.setCanceling canceling with goalBuffer := writer.buf }) := by
      rw [← body, cancelReply, same, newWithHeader_eq_ok _ open4]
      simp only [bind_assoc]
      rfl
    have put := CdrWriter.put_eq_ite _ ready (cancelReplyWire code (UInt32.ofNat canceled.length)
      (canceled.map Prod.fst) 0)
    have offset : (replyWriter core.goalBuffer).offset = 0 := rfl
    rw [length_replyWriter core.goalBuffer open4] at put
    rw [written, CdrWriter.emit, offset, put]
    have position : (replyWriter core.goalBuffer).pos = 4 := rfl
    rw [position, ← length]
    split
    case isTrue fits =>
      have joined := overwrite_append core.goalBuffer 0 cdrLeHeader (cancelReplyWire code
        (UInt32.ofNat canceled.length) (canceled.map Prod.fst) 0) (by rw [Nat.zero_add]; exact open4)
      rw [← whole] at joined
      rw [← joined, length]
      rfl
    case isFalse => exact ⟨_, rfl⟩
  · rw [if_neg (by omega), cancelReply, same, CdrWriter.newWithHeader, if_pos (by omega)]
    exact ⟨_, rfl⟩

end ActionServerCore

end NanoRos
