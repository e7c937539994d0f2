import NanoRos.Node.ActionClient
import NanoRos.Node.GoalAcceptance

/-! Whether a result belongs to the goal it is asked for. -/

namespace NanoRos

open LittleEndian Memory

/-- What happened to the goals of a server, oldest first. -/
inductive GoalLog where
  | accepted (goalId : GoalUuid)
  | completed (c : Completion)
  deriving DecidableEq

/-- The completions that no later acceptance of the same id has made an earlier goal's. -/
def standing (log : List GoalLog) : List Completion :=
  log.foldl (fun completions entry =>
    match entry with
    | .accepted goalId => completions.filter fun c => c.goalId ≠ goalId
    | .completed c => completions ++ [c]) []

theorem standing_accepted (log : List GoalLog) (goalId : GoalUuid) :
    standing (log ++ [.accepted goalId]) = (standing log).filter fun c => c.goalId ≠ goalId := by
  rw [standing, List.foldl_append]
  rfl

theorem standing_completed (log : List GoalLog) (c : Completion) :
    standing (log ++ [.completed c]) = standing log ++ [c] := by
  rw [standing, List.foldl_append]
  rfl

/-- The reply carries a completion of the goal made after its most recent acceptance. -/
def Current (log : List GoalLog) (goalId : GoalUuid) (reply : List UInt8) : Prop :=
  ∃ c : Completion, c.goalId = goalId ∧ reply = getResultReply c.status c.resultCdr ∧
    ∃ earlier later, log = earlier ++ .completed c :: later ∧ .accepted goalId ∉ later

theorem mem_standing {log : List GoalLog} {c : Completion} (member : c ∈ standing log) :
    ∃ earlier later, log = earlier ++ .completed c :: later ∧ .accepted c.goalId ∉ later := by
  induction log using List.reverseRecOn with
  | nil => cases member
  | append_singleton log entry ih =>
    cases entry with
    | accepted goalId =>
      rw [standing_accepted, List.mem_filter, decide_eq_true_iff] at member
      rcases ih member.1 with ⟨earlier, later, rfl, absent⟩
      refine ⟨earlier, later ++ [.accepted goalId], by simp, ?_⟩
      simp [absent, member.2]
    | completed c' =>
      rw [standing_completed] at member
      rcases List.mem_append.mp member with old | new
      · rcases ih old with ⟨earlier, later, rfl, absent⟩
        exact ⟨earlier, later ++ [.completed c'], by simp, by simp [absent]⟩
      · rw [List.mem_singleton.mp new]
        exact ⟨log, [], rfl, List.not_mem_nil⟩

theorem standing_of_later {earlier later : List GoalLog} {c : Completion}
    (absent : .accepted c.goalId ∉ later) : c ∈ standing (earlier ++ .completed c :: later) := by
  induction later using List.reverseRecOn with
  | nil =>
    rw [standing_completed]
    exact List.mem_append_right _ (List.mem_singleton.mpr rfl)
  | append_singleton later entry ih =>
    rw [List.mem_append, not_or] at absent
    have stands := ih absent.1
    rw [← List.cons_append, ← List.append_assoc]
    cases entry with
    | accepted goalId =>
      rw [standing_accepted, List.mem_filter, decide_eq_true_iff]
      refine ⟨stands, ?_⟩
      rintro rfl
      exact absent.2 (List.mem_singleton.mpr rfl)
    | completed c' =>
      rw [standing_completed]
      exact List.mem_append_left _ stands

theorem not_current {log : List GoalLog} {goalId : GoalUuid} {reply : List UInt8}
    (nothing : standing log = []) : ¬ Current log goalId reply := by
  rintro ⟨c, rfl, _, earlier, later, rfl, absent⟩
  have stands := @standing_of_later earlier later c absent
  rw [nothing] at stands
  cases stands

theorem mostRecent_mem {history : List Completion} {goalId : GoalUuid} {c : Completion}
    (latest : mostRecent history goalId = some c) : c ∈ history ∧ c.goalId = goalId := by
  rw [mostRecent] at latest
  refine ⟨List.mem_reverse.mp (List.mem_of_find?_eq_some latest), ?_⟩
  simpa using List.find?_some latest

theorem current_of_mostRecent {log : List GoalLog} {goalId : GoalUuid} {c : Completion}
    (latest : mostRecent (standing log) goalId = some c) :
    Current log goalId (getResultReply c.status c.resultCdr) := by
  rcases mostRecent_mem latest with ⟨member, rfl⟩
  exact ⟨c, rfl, rfl, mem_standing member⟩

theorem dedup_filter {α : Type} [DecidableEq α] (l : List α) (p : α → Bool) :
    (l.filter p).dedup = l.dedup.filter p := by
  induction l with
  | nil => rfl
  | cons a rest ih =>
    by_cases repeated : a ∈ rest
    · rw [List.dedup_cons_of_mem repeated, ← ih]
      cases keeps : p a with
      | true =>
        rw [List.filter_cons_of_pos keeps,
          List.dedup_cons_of_mem (List.mem_filter.mpr ⟨repeated, keeps⟩)]
      | false => rw [List.filter_cons_of_neg (by simp [keeps])]
    · rw [List.dedup_cons_of_notMem repeated]
      cases keeps : p a with
      | true =>
        rw [List.filter_cons_of_pos keeps, List.filter_cons_of_pos keeps,
          List.dedup_cons_of_notMem (fun inside => repeated (List.mem_filter.mp inside).1), ih]
      | false =>
        rw [List.filter_cons_of_neg (by simp [keeps]),
          List.filter_cons_of_neg (by simp [keeps]), ih]

namespace ActionServerCore

variable {goalBuf resultBuf maxGoals : Nat}

theorem Holds.forget {core : ActionServerCore goalBuf resultBuf maxGoals}
    {history : List Completion} (holds : core.Holds history) {goalId : GoalUuid}
    (absent : goalId ∉ core.retained) :
    core.Holds (history.filter fun c => c.goalId ≠ goalId) where
  stacked := holds.stacked
  used_eq := holds.used_eq
  room := holds.room
  sized := holds.sized
  distinct := holds.distinct
  ordered := by
    have others : (core.completedResults.items.map CompletedResultEntry.goalId).filter
        (fun id => id ≠ goalId) = core.completedResults.items.map CompletedResultEntry.goalId := by
      rw [List.filter_eq_self]
      intro id listed
      rw [decide_eq_true_iff]
      rintro rfl
      exact absent listed
    have kept := holds.ordered.filter (fun id => decide (id ≠ goalId))
    rw [others, completionOrder, ← dedup_filter, List.filter_map] at kept
    exact kept
  latest := by
    intro e member
    have other : e.goalId ≠ goalId := by
      rintro rfl
      exact absent (List.mem_map_of_mem member)
    rw [← holds.latest e member, mostRecent, mostRecent, ← List.filter_reverse, List.find?_filter]
    congr 1
    funext c
    by_cases own : c.goalId = e.goalId
    · simp [own, other]
    · simp [own]

theorem replyGetResult_replies (core : ActionServerCore goalBuf resultBuf maxGoals)
    (sized : core.goalBuffer.length = goalBuf) (sequenceNumber : Int64) (status : GoalStatusCode)
    (bytes : List UInt8) :
    ∃ result core' replies, core.replyGetResult sequenceNumber status bytes.length bytes =
        (result, core') ∧ core'.goalBuffer.length = goalBuf ∧
      core'.pendingGetResults = core.pendingGetResults ∧ core'.resultSlab = core.resultSlab ∧
      core'.getResultServer.sent = core.getResultServer.sent ++ replies ∧
      ∀ reply ∈ replies, reply.2 = getResultReply status bytes := by
  by_cases fits : getResultPayloadOffset + bytes.length ≤ goalBuf
  · rcases core.replyGetResult_fits sized sequenceNumber status bytes fits with
      ⟨buf, length, replied⟩
    rw [ServiceServer.sendResponse] at replied
    split at replied
    · refine ⟨_, _, [(sequenceNumber, getResultReply status bytes)], replied, length, rfl, rfl,
        rfl, ?_⟩
      intro reply member
      rw [List.mem_singleton.mp member]
    · exact ⟨_, _, [], replied, length, rfl, rfl, (List.append_nil _).symm, by simp⟩
  · rcases core.replyGetResult_long sized sequenceNumber status bytes.length bytes
      (Nat.not_le.mp fits) with ⟨e, buf, length, failed⟩
    exact ⟨_, _, [], failed, length, rfl, rfl, (List.append_nil _).symm, by simp⟩

theorem flushLoop_replies (goalId : GoalUuid) (status : GoalStatusCode) (resultCdr : List UInt8)
    (stored : Option (Nat × Nat)) (turns i : Nat) (delivered : Bool)
    (core : ActionServerCore goalBuf resultBuf maxGoals) (sized : core.goalBuffer.length = goalBuf)
    (kept : ∀ offset len, stored = some (offset, len) → len = resultCdr.length ∧
      slice core.resultSlab offset len = resultCdr) :
    (flushLoop goalId status resultCdr stored turns i delivered core).2.goalBuffer.length =
        goalBuf ∧
      ∃ replies,
        (flushLoop goalId status resultCdr stored turns i delivered core).2.getResultServer.sent =
          core.getResultServer.sent ++ replies ∧
        ∀ reply ∈ replies, reply.2 = getResultReply status resultCdr := by
  induction turns generalizing i delivered core with
  | zero => exact ⟨sized, [], (List.append_nil _).symm, by simp⟩
  | succ turns ih =>
    rw [flushLoop]
    split
    case h_1 => exact ⟨sized, [], (List.append_nil _).symm, by simp⟩
    case h_2 waiter _ =>
      split
      · have kept' : ∀ offset len, stored = some (offset, len) → len = resultCdr.length ∧
            slice (core.removeWaiter i).resultSlab offset len = resultCdr := kept
        rcases (core.removeWaiter i).replyGetResult_replies sized waiter.sequenceNumber status
          resultCdr with ⟨result, core', replies, replied, sized', _, slab, sent, same⟩
        dsimp only
        rw [replyWaiter_eq kept', replied]
        rcases ih i (delivered || result.isOk) core' sized' (by rw [slab]; exact kept') with
          ⟨length, later, sent', same'⟩
        refine ⟨length, replies ++ later, ?_, ?_⟩
        · rw [sent', sent, List.append_assoc]
          rfl
        · intro reply member
          rcases List.mem_append.mp member with first | rest
          · exact same reply first
          · exact same' reply rest
      · exact ih (i + 1) delivered core sized kept

theorem completeGoalRaw_replies {core : ActionServerCore goalBuf resultBuf maxGoals}
    {history : List Completion} (holds : core.Holds history)
    (sized : core.goalBuffer.length = goalBuf) (c : Completion) :
    (core.completeGoalRaw c.goalId c.status c.resultCdr).2.goalBuffer.length = goalBuf ∧ ∃ replies,
        (core.completeGoalRaw c.goalId c.status c.resultCdr).2.getResultServer.sent =
          core.getResultServer.sent ++ replies ∧
        ∀ reply ∈ replies, reply.2 = getResultReply c.status c.resultCdr := by
  rcases completeGoalRaw_flushes holds c with ⟨stored, core', reclaimed, _, kept, completed⟩
  have same : core'.getResultServer = core.getResultServer ∧
      core'.goalBuffer = core.goalBuffer := by
    rcases core.removeActiveGoal_frame c.goalId with ⟨active, ended⟩
    rw [ended] at reclaimed
    rcases reclaimed with ⟨_, _, _, rfl⟩
    exact ⟨rfl, rfl⟩
  have flushed := flushLoop_replies c.goalId c.status c.resultCdr stored
    core'.pendingGetResults.len 0 false core' (by rw [same.2]; exact sized) kept
  rw [completed, ← same.1]
  simp only [flushWaiters]
  split
  · exact flushed
  · exact flushed

/-- Whether the goal runs, as `try_handle_get_result_raw` looks it up. -/
def isActive (core : ActionServerCore goalBuf resultBuf maxGoals) (goalId : GoalUuid) : Bool :=
  core.activeGoals.items.any fun goal => goal.goalId = goalId

/-- How a request is met: from the slab first, and only then as one for a running goal. -/
inductive Met (core core' : ActionServerCore goalBuf resultBuf maxGoals)
    (history : List Completion) (goalId : GoalUuid) (sequenceNumber : Int64)
    (defaultResultCdr : List UInt8) (replies : List (Int64 × List UInt8)) : Prop where
  | completed (c : Completion) (retained : goalId ∈ core.retained)
      (latest : mostRecent history goalId = some c)
      (result : ∀ reply ∈ replies, reply.2 = getResultReply c.status c.resultCdr)
  | active (absent : goalId ∉ core.retained) (running : core.isActive goalId = true)
      (silent : replies = [])
      (held : core.pendingGetResults.len < maxGoals → core'.pendingGetResults.items =
        core.pendingGetResults.items ++ [⟨goalId, sequenceNumber⟩])
  | unknown (absent : goalId ∉ core.retained) (ended : core.isActive goalId = false)
      (result : ∀ reply ∈ replies, reply.2 = getResultReply .unknown defaultResultCdr)

theorem answerGetResult_met {core : ActionServerCore goalBuf resultBuf maxGoals}
    {history : List Completion} (holds : core.Holds history)
    (sized : core.goalBuffer.length = goalBuf) (goalId : GoalUuid) (sequenceNumber : Int64)
    (defaultResultCdr : List UInt8) :
    (core.answerGetResult goalId sequenceNumber defaultResultCdr).2.goalBuffer.length = goalBuf ∧
    ∃ replies,
      (core.answerGetResult goalId sequenceNumber defaultResultCdr).2.getResultServer.sent =
        core.getResultServer.sent ++ replies ∧
      Met core (core.answerGetResult goalId sequenceNumber defaultResultCdr).2 history goalId
        sequenceNumber defaultResultCdr replies := by
  rw [answerGetResult]
  cases found : core.completedResults.items.find? (fun entry => decide (entry.goalId = goalId)) with
  | some entry =>
    have member := List.mem_of_find?_eq_some found
    have own : entry.goalId = goalId := by simpa using List.find?_some found
    have retained : goalId ∈ core.retained := List.mem_map.mpr ⟨entry, member, own⟩
    have latest := holds.latest entry member
    have inside : entry.offset + entry.len ≤ core.resultSlab.length := by
      have stop := holds.inside entry member
      have room := holds.room
      rw [holds.sized]
      omega
    have length : (slice core.resultSlab entry.offset entry.len).length = entry.len :=
      length_slice _ _ _ inside
    rw [own] at latest
    rcases core.replyGetResult_replies sized sequenceNumber entry.status
      (slice core.resultSlab entry.offset entry.len) with
      ⟨result, core', replies, replied, sized', _, _, sent, same⟩
    rw [length] at replied
    simp only [replyGetResultFromSlab, replied]
    cases result with
    | error e | ok _ => exact ⟨sized', replies, sent, .completed _ retained latest same⟩
  | none =>
    have absent : goalId ∉ core.retained := by
      intro listed
      rcases List.mem_map.mp listed with ⟨entry, member, own⟩
      have missed := List.find?_eq_none.mp found entry member
      simp [own] at missed
    dsimp only
    split
    case isTrue running =>
      cases stored : core.pendingGetResults.push ⟨goalId, sequenceNumber⟩ with
      | none =>
        refine ⟨sized, [], (List.append_nil _).symm, .active absent running rfl ?_⟩
        intro room
        rcases core.pendingGetResults.push_of_room ⟨goalId, sequenceNumber⟩ room with
          ⟨_, pushed, _⟩
        rw [stored] at pushed
        cases pushed
      | some pending =>
        refine ⟨sized, [], (List.append_nil _).symm, .active absent running rfl ?_⟩
        intro _
        exact BoundedVec.items_of_push stored
    case isFalse ended =>
      rcases core.replyGetResult_replies sized sequenceNumber .unknown defaultResultCdr with
        ⟨result, core', replies, replied, sized', _, _, sent, same⟩
      simp only [replyGetResultBytes, replied]
      have finished : core.isActive goalId = false := Bool.eq_false_iff.mpr ended
      cases result with
      | error e | ok _ => exact ⟨sized', replies, sent, .unknown absent finished same⟩

def activeIds (core : ActionServerCore goalBuf resultBuf maxGoals) : List GoalUuid :=
  core.activeGoals.items.map RawActiveGoal.goalId

/-- The goals a client may ask for: running ones and retained ones. -/
def knownIds (core : ActionServerCore goalBuf resultBuf maxGoals) : List GoalUuid :=
  core.activeIds ++ core.retained

theorem isActive_iff (core : ActionServerCore goalBuf resultBuf maxGoals) (goalId : GoalUuid) :
    core.isActive goalId = true ↔ goalId ∈ core.activeIds := by
  simp [isActive, activeIds]

/-- The slab holds what stands, and nothing stands of a goal that runs. -/
structure Consistent (core : ActionServerCore goalBuf resultBuf maxGoals) (log : List GoalLog) :
    Prop where
  holds : core.Holds (standing log)
  sized : core.goalBuffer.length = goalBuf
  cancel : core.cancelBuffer.length = cancelBuf
  running : core.activeIds.Nodup
  apart : ∀ goalId ∈ core.activeIds, ∀ c ∈ standing log, c.goalId ≠ goalId

namespace Consistent

variable {core : ActionServerCore goalBuf resultBuf maxGoals} {log : List GoalLog}

section

variable (consistent : core.Consistent log)
include consistent

theorem distinct : core.knownIds.Nodup := by
  rw [knownIds, List.nodup_append']
  refine ⟨consistent.running, consistent.holds.distinct, ?_⟩
  intro goalId active retained
  rcases List.mem_map.mp retained with ⟨e, member, rfl⟩
  have latest := mostRecent_mem (consistent.holds.latest e member)
  exact consistent.apart e.goalId active _ latest.1 rfl

theorem takeRequest (take : Take goalBuf) : (core.takeRequest take).Consistent log :=
  { consistent with sized := take.sized }

theorem of_same {core' : ActionServerCore goalBuf resultBuf maxGoals}
    (holds : core'.Holds (standing log)) (sized : core'.goalBuffer.length = goalBuf)
    (cancel : core'.cancelBuffer.length = cancelBuf) (same : core'.activeIds = core.activeIds) :
    core'.Consistent log where
  holds := holds
  sized := sized
  cancel := cancel
  running := by
    rw [same]
    exact consistent.running
  apart := by
    rw [same]
    exact consistent.apart

theorem rejectGoal (goalId : GoalUuid) (seq : Int64) (stamp : Time)
    : (core.rejectGoal seq).2.Consistent log := by
  have room : 16 ≤ core.cancelBuffer.length := by
    rw [consistent.cancel]
    decide
  have length := (core.rejectGoal_answered goalId seq stamp room).2.2
  rcases core.rejectGoal_frame seq with ⟨server, cancel, framed⟩
  rw [framed] at length ⊢
  exact consistent.of_same consistent.holds consistent.sized (length.trans consistent.cancel) rfl

theorem acceptGoal (goalId : GoalUuid) (seq : Int64) (stamp : Time)
    (fresh : core.activeGoals.len < maxGoals → core.takesReply = true → goalId ∉ core.knownIds) :
    (core.acceptGoal goalId seq stamp).2.Consistent (log ++
      if core.activeGoals.len < (core.acceptGoal goalId seq stamp).2.activeGoals.len then
        [.accepted goalId] else []) := by
  have room : 16 ≤ core.cancelBuffer.length := by
    rw [consistent.cancel]
    decide
  rcases core.acceptGoal_answered goalId seq stamp room with ⟨answered, _, length⟩
  rcases core.acceptGoal_frame goalId seq stamp with ⟨server, active, cancel, framed⟩
  rw [framed] at answered length ⊢
  by_cases accepted : core.takesReply = true ∧ core.activeGoals.len < maxGoals
  · rw [accepted.1, if_pos rfl, decide_eq_true accepted.2] at answered
    have grown : active.items = core.activeGoals.items ++ [⟨goalId, .accepted, stamp⟩] :=
      answered.2
    have longer : core.activeGoals.len < active.len := by
      rw [BoundedVec.len, BoundedVec.len, grown, List.length_append, List.length_singleton]
      exact Nat.lt_succ_self _
    have unknown := fresh accepted.2 accepted.1
    rw [knownIds, List.mem_append, not_or] at unknown
    rw [if_pos longer]
    have ids : active.items.map RawActiveGoal.goalId = core.activeIds ++ [goalId] := by
      rw [grown, List.map_append]
      rfl
    constructor
    · rw [standing_accepted]
      exact consistent.holds.forget unknown.2
    · exact consistent.sized
    · exact length.trans consistent.cancel
    · change (active.items.map RawActiveGoal.goalId).Nodup
      rw [ids]
      exact consistent.running.append (List.nodup_singleton _)
        (List.disjoint_singleton.mpr unknown.1)
    · change ∀ id ∈ active.items.map RawActiveGoal.goalId, _
      rw [ids, standing_accepted]
      intro id listed c member
      rw [List.mem_filter, decide_eq_true_iff] at member
      rcases List.mem_append.mp listed with old | new
      · exact consistent.apart id old c member.1
      · rw [List.mem_singleton.mp new]
        exact member.2
  · have unchanged : active.items = core.activeGoals.items := by
      cases taken : core.takesReply with
      | false =>
        rw [taken, if_neg Bool.false_ne_true] at answered
        exact answered.2
      | true =>
        have full : ¬ core.activeGoals.len < maxGoals := fun room' => accepted ⟨taken, room'⟩
        rw [taken, if_pos rfl, decide_eq_false full] at answered
        exact answered.2
    have same : ¬ core.activeGoals.len < active.len := by
      rw [BoundedVec.len, BoundedVec.len, unchanged]
      exact Nat.lt_irrefl _
    rw [if_neg same, List.append_nil]
    refine consistent.of_same ?_ consistent.sized (length.trans consistent.cancel) ?_
    · exact consistent.holds
    · exact congrArg (List.map RawActiveGoal.goalId) unchanged

theorem setGoalStatus (goalId : GoalUuid) (status : GoalStatusCode)
    : (core.setGoalStatus goalId status).Consistent log := by
  refine consistent.of_same ?_ consistent.sized consistent.cancel ?_
  · exact consistent.holds
  · apply map_updateFirst
    intro goal
    rfl

end

end Consistent

theorem activeIds_removeActiveGoal (core : ActionServerCore goalBuf resultBuf maxGoals)
    (goalId : GoalUuid) :
    core.activeIds.Perm (goalId :: (core.removeActiveGoal goalId).activeIds) ∨
      goalId ∉ core.activeIds ∧ (core.removeActiveGoal goalId).activeIds = core.activeIds := by
  rw [removeActiveGoal]
  cases found : core.activeGoals.items.findIdx? (fun goal => decide (goal.goalId = goalId)) with
  | some pos =>
    rcases List.findIdx?_eq_some_iff_getElem.mp found with ⟨inside, own, _⟩
    have placed : core.activeGoals.items[pos]? = some core.activeGoals.items[pos] :=
      List.getElem?_eq_getElem inside
    have perm := (core.activeGoals.perm_cons_swapRemove pos _ placed).map RawActiveGoal.goalId
    rw [List.map_cons, of_decide_eq_true own] at perm
    exact .inl perm
  | none =>
    refine .inr ⟨?_, rfl⟩
    intro listed
    rcases List.mem_map.mp listed with ⟨goal, member, own⟩
    have missed := List.findIdx?_eq_none_iff.mp found goal member
    simp [own] at missed

namespace Consistent

variable {core : ActionServerCore goalBuf resultBuf maxGoals} {log : List GoalLog}

section

variable (consistent : core.Consistent log)
include consistent

theorem completeGoalRaw (c : Completion) :
    (core.completeGoalRaw c.goalId c.status c.resultCdr).2.Consistent
      (log ++ [.completed c]) := by
  have holds := completeGoalRaw_holds consistent.holds c
  have sized := (completeGoalRaw_replies consistent.holds consistent.sized c).1
  rcases completeGoalRaw_frame consistent.holds c with ⟨_, _, _, _, _, _, framed⟩
  have active : (core.completeGoalRaw c.goalId c.status c.resultCdr).2.activeIds =
      (core.removeActiveGoal c.goalId).activeIds := by
    rw [framed]
    rfl
  have ended : (core.removeActiveGoal c.goalId).activeIds.Nodup ∧
      c.goalId ∉ (core.removeActiveGoal c.goalId).activeIds ∧
      (core.removeActiveGoal c.goalId).activeIds ⊆ core.activeIds := by
    rcases core.activeIds_removeActiveGoal c.goalId with perm | ⟨absent, same⟩
    · have nodup := perm.nodup_iff.mp consistent.running
      rw [List.nodup_cons] at nodup
      refine ⟨nodup.2, nodup.1, ?_⟩
      intro id listed
      exact perm.symm.subset (List.mem_cons_of_mem _ listed)
    · rw [same]
      exact ⟨consistent.running, absent, fun _ listed => listed⟩
  constructor
  · rw [standing_completed]
    exact holds
  · exact sized
  · rcases core.removeActiveGoal_frame c.goalId with ⟨_, removed⟩
    rw [framed, removed]
    exact consistent.cancel
  · rw [active]
    exact ended.1
  · rw [active, standing_completed]
    intro id listed c' member
    rcases List.mem_append.mp member with old | new
    · exact consistent.apart id (ended.2.2 listed) c' old
    · rw [List.mem_singleton.mp new]
      rintro rfl
      exact ended.2.1 listed

theorem expireCompletedResults :
    core.expireCompletedResults.2.Consistent log := by
  have holds := expireCompletedResults_holds consistent.holds
  rcases core.expireCompletedResults_frame with ⟨_, _, _, framed⟩
  rw [framed] at holds ⊢
  exact consistent.of_same holds consistent.sized consistent.cancel rfl

theorem answerGetResult (goalId : GoalUuid) (sequenceNumber : Int64)
    (defaultResultCdr : List UInt8) :
    (core.answerGetResult goalId sequenceNumber defaultResultCdr).2.Consistent log := by
  have holds := answerGetResult_holds consistent.holds goalId sequenceNumber defaultResultCdr
  have sized := (answerGetResult_met consistent.holds consistent.sized goalId sequenceNumber
    defaultResultCdr).1
  rcases core.answerGetResult_frame goalId sequenceNumber defaultResultCdr with ⟨_, _, _, _, framed⟩
  rw [framed] at holds sized ⊢
  exact consistent.of_same holds sized consistent.cancel rfl

end

end Consistent

end ActionServerCore

/-- A `get_result` request and the server before and after it. -/
structure Ask (goalBuf resultBuf maxGoals : Nat) where
  goalId : GoalUuid
  sequenceNumber : Int64
  defaultResultCdr : List UInt8
  before : ActionServerCore goalBuf resultBuf maxGoals
  after : ActionServerCore goalBuf resultBuf maxGoals
  log : List GoalLog

/-- A completion and the server before and after it; the log ends with it. -/
structure Ending (goalBuf resultBuf maxGoals : Nat) where
  completion : Completion
  before : ActionServerCore goalBuf resultBuf maxGoals
  after : ActionServerCore goalBuf resultBuf maxGoals
  log : List GoalLog

section Records

variable {goalBuf resultBuf maxGoals : Nat}

/-- What was sent on the `get_result` service between the two. -/
def repliesBetween (before after : ActionServerCore goalBuf resultBuf maxGoals) :
    List (Int64 × List UInt8) :=
  after.getResultServer.sent.drop before.getResultServer.sent.length

/-- The reply is about the goal as it was accepted last, or says that there is none. -/
structure Ask.Honest (a : Ask goalBuf resultBuf maxGoals) : Prop where
  replies : ∀ reply ∈ repliesBetween a.before a.after, Current a.log a.goalId reply.2 ∨
    a.goalId ∉ a.before.knownIds ∧ reply.2 = getResultReply .unknown a.defaultResultCdr
  deferred : a.before.isActive a.goalId = true → repliesBetween a.before a.after = [] ∧
    (a.before.pendingGetResults.len < maxGoals → a.after.pendingGetResults.items =
      a.before.pendingGetResults.items ++ [⟨a.goalId, a.sequenceNumber⟩])

/-- The reply is about the goal as it was accepted last; a running goal's waits. -/
structure Ask.Strict (a : Ask goalBuf resultBuf maxGoals) : Prop where
  replies : ∀ reply ∈ repliesBetween a.before a.after, Current a.log a.goalId reply.2
  deferred : a.before.isActive a.goalId = true → repliesBetween a.before a.after = [] ∧
    a.after.pendingGetResults.items =
      a.before.pendingGetResults.items ++ [⟨a.goalId, a.sequenceNumber⟩]

def Ending.Honest (e : Ending goalBuf resultBuf maxGoals) : Prop :=
  ∀ reply ∈ repliesBetween e.before e.after, Current e.log e.completion.goalId reply.2

end Records

/-- A server, its clients, and everything that was asked of it. -/
structure ReuseRun (clientBuf goalBuf resultBuf maxGoals : Nat) where
  clients : Nat → ActionClientCore clientBuf
  /-- The `send_goal` requests of all clients, of earlier incarnations too. -/
  requests : List (List UInt8)
  core : ActionServerCore goalBuf resultBuf maxGoals
  log : List GoalLog
  asks : List (Ask goalBuf resultBuf maxGoals)
  endings : List (Ending goalBuf resultBuf maxGoals)
  /-- The goals known after each step. -/
  known : List (List GoalUuid)

inductive ReuseEvent (goalBuf : Nat) where
  | send (client : Nat) (goalCdr : List UInt8)
  /-- The client's process ends and comes back with a new backend. -/
  | restart (client : Nat) (sendGoalClient : RmwServiceClient)
  /-- The server takes a request some client has sent, and answers it. -/
  | answer (take : Take goalBuf) (accept : Bool) (stamp : Time)
  | setStatus (goalId : GoalUuid) (status : GoalStatusCode)
  | complete (c : Completion)
  | expire
  | getResult (take : Take goalBuf) (defaultResultCdr : List UInt8)

namespace ReuseRun

variable {clientBuf goalBuf resultBuf maxGoals : Nat}

def init (backends : Nat → RmwServiceClient) (sendGoalServer getResultServer : ServiceServer) :
    ReuseRun clientBuf goalBuf resultBuf maxGoals where
  clients := fun i => .new (backends i)
  requests := []
  core := .fromChannels sendGoalServer getResultServer
  log := []
  asks := []
  endings := []
  known := []

/-- The bytes of the request in a take. -/
def taken (take : Take goalBuf) : Option (List UInt8) :=
  match take.outcome with
  | .ok (some request) => some (slice take.buf request.dataOffset request.dataLen)
  | _ => none

def withCore (s : ReuseRun clientBuf goalBuf resultBuf maxGoals)
    (core : ActionServerCore goalBuf resultBuf maxGoals) :
    ReuseRun clientBuf goalBuf resultBuf maxGoals :=
  { s with core := core, known := s.known ++ [core.knownIds] }

/-- What the server does with a request, and the acceptance if there was one. -/
def answered (core : ActionServerCore goalBuf resultBuf maxGoals) (request : RawGoalRequest)
    (accept : Bool) (stamp : Time) :
    ActionServerCore goalBuf resultBuf maxGoals × List GoalLog :=
  if accept then
    let core' := (core.acceptGoal request.goalId request.sequenceNumber stamp).2
    (core', if core.activeGoals.len < core'.activeGoals.len then [.accepted request.goalId] else [])
  else ((core.rejectGoal request.sequenceNumber).2, [])

/-- The `send_goal` request in a take, if it can be read. -/
def requested (core : ActionServerCore goalBuf resultBuf maxGoals) (take : Take goalBuf) :
    Option RawGoalRequest :=
  match (core.tryRecvGoalRequest take).1 with
  | .ok request => request
  | .error _ => none

/-- The id and the token of a `get_result` request. -/
def asked (take : Take goalBuf) : Option (GoalUuid × Int64) :=
  match received take.outcome with
  | .ok (some request) =>
    match requestGoalId take.buf request with
    | .ok goalId => some (goalId, request.sequenceNumber)
    | .error _ => none
  | _ => none

def step (s : ReuseRun clientBuf goalBuf resultBuf maxGoals) :
    ReuseEvent goalBuf → Option (ReuseRun clientBuf goalBuf resultBuf maxGoals)
  | .send client goalCdr =>
    let before := s.clients client
    let after := (before.sendGoalRaw goalCdr).2
    some { s with
      clients := Function.update s.clients client after
      requests := s.requests ++ (after.sendGoalClient.sent.drop
        before.sendGoalClient.sent.length).map Prod.snd }
  | .restart client sendGoalClient =>
    some { s with clients := Function.update s.clients client (.new sendGoalClient) }
  | .answer take accept stamp =>
    match taken take with
    | none => none
    | some bytes =>
      if bytes ∈ s.requests then
        match s.core.tryRecvGoalRequest take with
        | (.ok (some request), core) =>
          let (core, acceptance) := answered core request accept stamp
          some { s.withCore core with log := s.log ++ acceptance }
        | (_, core) => some (s.withCore core)
      else none
  | .setStatus goalId status => some (s.withCore (s.core.setGoalStatus goalId status))
  | .complete c =>
    let core := (s.core.completeGoalRaw c.goalId c.status c.resultCdr).2
    let log := s.log ++ [.completed c]
    some { s.withCore core with
      log := log
      endings := s.endings ++ [⟨c, s.core, core, log⟩] }
  | .expire => some (s.withCore s.core.expireCompletedResults.2)
  | .getResult take defaultResultCdr =>
    let core := (s.core.tryHandleGetResultRaw take defaultResultCdr).2
    some { s.withCore core with
      asks := s.asks ++ match asked take with
        | some (goalId, seq) => [⟨goalId, seq, defaultResultCdr, s.core, core, s.log⟩]
        | none => [] }

/-- A goal that is accepted has an id the server does not know. -/
def Fresh (s : ReuseRun clientBuf goalBuf resultBuf maxGoals) : ReuseEvent goalBuf → Prop
  | .answer take accept _ =>
    ∀ request ∈ requested s.core take, accept = true → s.core.activeGoals.len < maxGoals →
      s.core.takesReply = true → request.goalId ∉ s.core.knownIds
  | _ => True

/-- A goal that is asked for is known; while it runs there is room for one more to wait. -/
def Answerable (s : ReuseRun clientBuf goalBuf resultBuf maxGoals) : ReuseEvent goalBuf → Prop
  | .getResult take _ =>
    ∀ request ∈ asked take, request.1 ∈ s.core.knownIds ∧
      (s.core.isActive request.1 = true → s.core.pendingGetResults.len < maxGoals)
  | _ => True

instance decidableFresh (s : ReuseRun clientBuf goalBuf resultBuf maxGoals) :
    (e : ReuseEvent goalBuf) → Decidable (s.Fresh e)
  | .answer take accept _ => inferInstanceAs (Decidable (∀ request ∈ requested s.core take,
      accept = true → s.core.activeGoals.len < maxGoals → s.core.takesReply = true →
        request.goalId ∉ s.core.knownIds))
  | .send .. | .restart .. | .setStatus .. | .complete _ | .expire | .getResult .. => isTrue trivial

instance decidableAnswerable (s : ReuseRun clientBuf goalBuf resultBuf maxGoals) :
    (e : ReuseEvent goalBuf) → Decidable (s.Answerable e)
  | .getResult take _ => inferInstanceAs (Decidable (∀ request ∈ asked take,
      request.1 ∈ s.core.knownIds ∧
        (s.core.isActive request.1 = true → s.core.pendingGetResults.len < maxGoals)))
  | .send .. | .restart .. | .answer .. | .setStatus .. | .complete _ | .expire => isTrue trivial

/-- Known goals have distinct ids, and no reply is about an earlier goal. -/
structure Honest (s : ReuseRun clientBuf goalBuf resultBuf maxGoals) : Prop where
  asks : ∀ a ∈ s.asks, a.Honest
  endings : ∀ e ∈ s.endings, e.Honest
  distinct : ∀ ids ∈ s.known, ids.Nodup

structure Strict (s : ReuseRun clientBuf goalBuf resultBuf maxGoals) : Prop where
  asks : ∀ a ∈ s.asks, a.Strict
  endings : ∀ e ∈ s.endings, e.Honest
  distinct : ∀ ids ∈ s.known, ids.Nodup

structure Kept (s : ReuseRun clientBuf goalBuf resultBuf maxGoals) : Prop where
  consistent : s.core.Consistent s.log
  honest : s.Honest

theorem kept_init (backends : Nat → RmwServiceClient)
    (sendGoalServer getResultServer : ServiceServer) :
    (init backends sendGoalServer getResultServer :
      ReuseRun clientBuf goalBuf resultBuf maxGoals).Kept where
  consistent := {
    holds := WatchedServer.holds_init sendGoalServer getResultServer
    sized := List.length_replicate
    cancel := List.length_replicate
    running := List.nodup_nil
    apart := by
      intro goalId member
      cases member }
  honest := {
    asks := by
      intro a member
      cases member
    endings := by
      intro e member
      cases member
    distinct := by
      intro ids member
      cases member }

theorem Kept.withCore {s next : ReuseRun clientBuf goalBuf resultBuf maxGoals} (kept : s.Kept)
    {core : ActionServerCore goalBuf resultBuf maxGoals} {log : List GoalLog}
    (consistent : core.Consistent log)
    (after : next = { s.withCore core with log := log }) : next.Kept := by
  subst after
  refine ⟨consistent, kept.honest.asks, kept.honest.endings, ?_⟩
  intro ids member
  rcases List.mem_append.mp member with old | new
  · exact kept.honest.distinct ids old
  · rw [List.mem_singleton.mp new]
    exact consistent.distinct

theorem tryHandleGetResultRaw_asked (core : ActionServerCore goalBuf resultBuf maxGoals)
    (take : Take goalBuf) (defaultResultCdr : List UInt8) :
    (core.tryHandleGetResultRaw take defaultResultCdr).2 =
      match asked take with
      | some (goalId, seq) =>
        ((core.takeRequest take).answerGetResult goalId seq defaultResultCdr).2
      | none => core.takeRequest take := by
  simp only [ActionServerCore.tryHandleGetResultRaw, asked]
  rcases received take.outcome with _ | _ | request
  · rfl
  · rfl
  · have buffer : (core.takeRequest take).goalBuffer = take.buf := rfl
    dsimp only
    rw [buffer]
    cases requestGoalId take.buf request with
    | error e => rfl
    | ok goalId => rfl

theorem ask_honest {core : ActionServerCore goalBuf resultBuf maxGoals} {log : List GoalLog}
    (consistent : core.Consistent log) (take : Take goalBuf) (goalId : GoalUuid) (seq : Int64)
    (defaultResultCdr : List UInt8) : (Ask.mk goalId seq defaultResultCdr core
      ((core.takeRequest take).answerGetResult goalId seq defaultResultCdr).2 log).Honest := by
  have taken := consistent.takeRequest take
  rcases ActionServerCore.answerGetResult_met taken.holds taken.sized goalId seq
    defaultResultCdr with ⟨_, replies, sent, met⟩
  have between : repliesBetween core
      ((core.takeRequest take).answerGetResult goalId seq defaultResultCdr).2 = replies := by
    rw [repliesBetween, sent]
    exact List.drop_left
  -- a retained goal does not run, so the order of the two lookups does not show
  have apart : goalId ∈ core.retained → core.isActive goalId ≠ true := by
    intro retained active
    have disjoint := List.disjoint_of_nodup_append consistent.distinct
    exact disjoint ((core.isActive_iff goalId).mp active) retained
  cases met with
  | completed c retained latest result =>
    constructor
    · intro reply member
      rw [between] at member
      rw [result reply member]
      exact .inl (current_of_mostRecent latest)
    · intro active
      exact absurd active (apart retained)
  | active absent running silent held =>
    constructor
    · intro reply member
      rw [between, silent] at member
      cases member
    · intro _
      exact ⟨between.trans silent, held⟩
  | unknown absent ended result =>
    have finished : core.isActive goalId = false := ended
    constructor
    · intro reply member
      rw [between] at member
      refine .inr ⟨?_, result reply member⟩
      intro known
      rcases List.mem_append.mp known with active | retained
      · rw [(core.isActive_iff goalId).mpr active] at finished
        cases finished
      · exact absent retained
    · intro active
      rw [finished] at active
      cases active

theorem step_answer {s next : ReuseRun clientBuf goalBuf resultBuf maxGoals} {take : Take goalBuf}
    {accept : Bool} {stamp : Time} (stepped : s.step (.answer take accept stamp) = some next) :
    requested s.core take = none ∧ next = s.withCore (s.core.takeRequest take) ∨
      ∃ request, requested s.core take = some request ∧
        next = { s.withCore (answered (s.core.takeRequest take) request accept stamp).1 with
          log := s.log ++ (answered (s.core.takeRequest take) request accept stamp).2 } := by
  have framed := s.core.tryRecvGoalRequest_frame take
  simp only [step] at stepped
  rw [requested]
  cases request : taken take with
  | none =>
    rw [request] at stepped
    cases stepped
  | some bytes =>
    rw [request] at stepped
    dsimp only at stepped
    split at stepped
    case isFalse => cases stepped
    case isTrue =>
      rcases outcome : s.core.tryRecvGoalRequest take with ⟨_ | _ | request, core⟩
      · rw [outcome] at stepped framed
        cases stepped
        subst framed
        exact .inl ⟨rfl, rfl⟩
      · rw [outcome] at stepped framed
        cases stepped
        subst framed
        exact .inl ⟨rfl, rfl⟩
      · rw [outcome] at stepped framed
        cases stepped
        subst framed
        exact .inr ⟨request, rfl, rfl⟩

theorem step_keeps (s : ReuseRun clientBuf goalBuf resultBuf maxGoals) (e : ReuseEvent goalBuf)
    (next : ReuseRun clientBuf goalBuf resultBuf maxGoals) (kept : s.Kept) (met : s.Fresh e)
    (stepped : s.step e = some next) : next.Kept := by
  cases e with
  | send client goalCdr | restart client sendGoalClient =>
    cases stepped
    exact ⟨kept.consistent, kept.honest.asks, kept.honest.endings, kept.honest.distinct⟩
  | answer take accept stamp =>
    have taken := kept.consistent.takeRequest take
    rcases step_answer stepped with ⟨_, after⟩ | ⟨request, received, after⟩
    · exact kept.withCore taken after
    · refine kept.withCore ?_ after
      cases accept with
      | true =>
        apply taken.acceptGoal
        exact met request received rfl
      | false =>
        have rejected := taken.rejectGoal request.goalId request.sequenceNumber stamp
        rw [← List.append_nil s.log] at rejected
        exact rejected
  | setStatus goalId status =>
    cases stepped
    exact kept.withCore (kept.consistent.setGoalStatus goalId status) rfl
  | complete c =>
    cases stepped
    have consistent := kept.consistent.completeGoalRaw c
    rcases ActionServerCore.completeGoalRaw_replies kept.consistent.holds kept.consistent.sized c
      with ⟨_, replies, sent, same⟩
    have honest := (kept.withCore consistent rfl).honest
    refine ⟨consistent, honest.asks, ?_, honest.distinct⟩
    intro e member
    rcases List.mem_append.mp member with old | new
    · exact kept.honest.endings e old
    · rw [List.mem_singleton.mp new]
      intro reply sent'
      rw [repliesBetween, sent, List.drop_left] at sent'
      exact ⟨c, rfl, same reply sent', s.log, [], rfl, List.not_mem_nil⟩
  | expire =>
    cases stepped
    exact kept.withCore kept.consistent.expireCompletedResults rfl
  | getResult take defaultResultCdr =>
    cases stepped
    have taken := kept.consistent.takeRequest take
    have handled := tryHandleGetResultRaw_asked s.core take defaultResultCdr
    cases request : asked take with
    | none =>
      rw [request] at handled
      dsimp only at handled
      rw [handled]
      dsimp only
      rw [List.append_nil]
      exact kept.withCore taken rfl
    | some request' =>
      rcases request' with ⟨goalId, seq⟩
      rw [request] at handled
      dsimp only at handled
      rw [handled]
      have consistent := taken.answerGetResult goalId seq defaultResultCdr
      have honest := (kept.withCore consistent rfl).honest
      refine ⟨consistent, ?_, honest.endings, honest.distinct⟩
      intro a member
      rcases List.mem_append.mp member with old | new
      · exact kept.honest.asks a old
      · rw [List.mem_singleton.mp new]
        exact ask_honest kept.consistent take goalId seq defaultResultCdr

/-- Two known goals of one id, at some time of the run. -/
def Clashed (s : ReuseRun clientBuf goalBuf resultBuf maxGoals) : Prop :=
  ∃ ids ∈ s.known, ¬ ids.Nodup

theorem step_clashes (s : ReuseRun clientBuf goalBuf resultBuf maxGoals) (e : ReuseEvent goalBuf)
    (next : ReuseRun clientBuf goalBuf resultBuf maxGoals) (kept : s.Kept) (missed : ¬ s.Fresh e)
    (stepped : s.step e = some next) : next.Clashed := by
  cases e with
  | answer take accept stamp =>
    simp only [Fresh, not_forall, not_not] at missed
    rcases missed with ⟨request, received, rfl, room, takes, known⟩
    rcases step_answer stepped with ⟨nothing, _⟩ | ⟨request', received', after⟩
    · rw [nothing] at received
      cases received
    · rw [received] at received'
      cases received'
      have space : 16 ≤ (s.core.takeRequest take).cancelBuffer.length := by
        change 16 ≤ s.core.cancelBuffer.length
        rw [kept.consistent.cancel]
        decide
      rcases (s.core.takeRequest take).acceptGoal_answered request.goalId
        request.sequenceNumber stamp space with ⟨outcome, _, _⟩
      have accepts : (s.core.takeRequest take).takesReply = true := takes
      have free : (s.core.takeRequest take).activeGoals.len < maxGoals := room
      rw [accepts, if_pos rfl, decide_eq_true free] at outcome
      have retained : ((s.core.takeRequest take).acceptGoal request.goalId
          request.sequenceNumber stamp).2.retained = s.core.retained := by
        rcases (s.core.takeRequest take).acceptGoal_frame request.goalId request.sequenceNumber
          stamp with ⟨_, _, _, framed⟩
        rw [framed]
        rfl
      have active : ((s.core.takeRequest take).acceptGoal request.goalId
          request.sequenceNumber stamp).2.activeIds = s.core.activeIds ++ [request.goalId] := by
        rw [ActionServerCore.activeIds, outcome.2, List.map_append]
        rfl
      refine ⟨((s.core.takeRequest take).acceptGoal request.goalId request.sequenceNumber
        stamp).2.knownIds, ?_, ?_⟩
      · rw [after]
        exact List.mem_append_right _ (List.mem_singleton.mpr rfl)
      · rw [ActionServerCore.knownIds, active, retained]
        intro distinct
        rw [List.append_assoc, List.singleton_append] at distinct
        have once := (List.nodup_middle.mp distinct)
        rw [List.nodup_cons] at once
        exact once.1 known
  | send client goalCdr | restart client sendGoalClient
  | setStatus goalId status => exact absurd trivial missed
  | complete c | expire | getResult take defaultResultCdr => exact absurd trivial missed

theorem step_known {s next : ReuseRun clientBuf goalBuf resultBuf maxGoals}
    {e : ReuseEvent goalBuf} (stepped : s.step e = some next) : s.known ⊆ next.known := by
  intro ids member
  cases e with
  | answer take accept stamp =>
    rcases step_answer stepped with ⟨_, rfl⟩ | ⟨_, _, rfl⟩
    · exact List.mem_append_left _ member
    · exact List.mem_append_left _ member
  | send client goalCdr | restart client sendGoalClient =>
    cases stepped
    exact member
  | setStatus goalId status | complete c | expire | getResult take defaultResultCdr =>
    cases stepped
    exact List.mem_append_left _ member

/-- The goals asked for were known, and there was room to wait. -/
def Asked (s : ReuseRun clientBuf goalBuf resultBuf maxGoals) : Prop :=
  ∀ a ∈ s.asks, a.goalId ∈ a.before.knownIds ∧
    (a.before.isActive a.goalId = true → a.before.pendingGetResults.len < maxGoals)

theorem step_asked (s : ReuseRun clientBuf goalBuf resultBuf maxGoals) (e : ReuseEvent goalBuf)
    (next : ReuseRun clientBuf goalBuf resultBuf maxGoals) (all : s.Asked)
    (met : s.Answerable e) (stepped : s.step e = some next) : next.Asked := by
  cases e with
  | answer take accept stamp =>
    rcases step_answer stepped with ⟨_, rfl⟩ | ⟨_, _, rfl⟩
    · exact all
    · exact all
  | getResult take defaultResultCdr =>
    cases stepped
    intro a member
    rcases List.mem_append.mp member with old | new
    · exact all a old
    · cases request : asked take with
      | none =>
        rw [request] at new
        cases new
      | some request' =>
        rcases request' with ⟨goalId, seq⟩
        rw [request] at new
        rw [List.mem_singleton.mp new]
        exact met (goalId, seq) request
  | send client goalCdr | restart client sendGoalClient | setStatus goalId status | complete c
  | expire =>
    cases stepped
    exact all

theorem Honest.strict {s : ReuseRun clientBuf goalBuf resultBuf maxGoals} (honest : s.Honest)
    (all : s.Asked) : s.Strict := by
  refine ⟨?_, honest.endings, honest.distinct⟩
  intro a member
  rcases all a member with ⟨known, room⟩
  constructor
  · intro reply sent
    rcases (honest.asks a member).replies reply sent with current | ⟨unknown, _⟩
    · exact current
    · exact absurd known unknown
  · intro active
    rcases (honest.asks a member).deferred active with ⟨silent, held⟩
    exact ⟨silent, held (room active)⟩

/-- No reply is about an earlier goal exactly when no id is accepted that the server still knows;
where every goal asked for is known, every reply is about the goal accepted last. -/
theorem results_of_latest_goal_iff (backends : Nat → RmwServiceClient)
    (sendGoalServer getResultServer : ServiceServer) (events : List (ReuseEvent goalBuf))
    (last : ReuseRun clientBuf goalBuf resultBuf maxGoals)
    (reached : run step (init backends sendGoalServer getResultServer) events = some last) :
    (last.Honest ↔ Along step Fresh (init backends sendGoalServer getResultServer :
      ReuseRun clientBuf goalBuf resultBuf maxGoals) events) ∧
    (Along step (fun s e => Fresh s e ∧ Answerable s e)
      (init backends sendGoalServer getResultServer :
        ReuseRun clientBuf goalBuf resultBuf maxGoals) events → last.Strict) := by
  have started := @kept_init clientBuf goalBuf resultBuf maxGoals backends sendGoalServer
    getResultServer
  constructor
  · constructor
    · intro honest
      have clean : ∀ s : ReuseRun clientBuf goalBuf resultBuf maxGoals, s.Kept → ¬ s.Clashed := by
        rintro s kept ⟨ids, member, clash⟩
        exact clash (kept.honest.distinct ids member)
      have lasts : ∀ (s : ReuseRun clientBuf goalBuf resultBuf maxGoals) e next,
          s.Clashed → s.step e = some next → next.Clashed := by
        rintro s e next ⟨ids, member, clash⟩ stepped
        exact ⟨ids, step_known stepped member, clash⟩
      apply (run_sound_iff clean step_keeps step_clashes lasts _ last events started reached).mp
      rintro ⟨ids, member, clash⟩
      exact clash (honest.distinct ids member)
    · intro fresh
      exact (run_invariant_along step_keeps _ last events started fresh reached).honest
  · intro both
    have kept := @run_invariant_along _ _ step (fun s e => Fresh s e ∧ Answerable s e)
      (fun s : ReuseRun clientBuf goalBuf resultBuf maxGoals => s.Kept ∧ s.Asked)
      (fun s e next inv met stepped => ⟨step_keeps s e next inv.1 met.1 stepped,
        step_asked s e next inv.2 met.2 stepped⟩)
      (init backends sendGoalServer getResultServer) last events
      ⟨started, fun a member => nomatch member⟩ both reached
    exact kept.1.honest.strict kept.2

/-- A request with token 7 that names the goal and carries nothing else. -/
def requestFor (goalId : GoalUuid) : Take 32 where
  buf := goalFrame goalId [] ++ List.replicate 12 0
  sized := by
    rw [List.length_append, length_goalFrame]
    rfl
  outcome := .ok (some ⟨0, 20, by decide, 7⟩)

/-- A client's first goal: the request for its result waits until it ends, the next one is
answered from the slab. -/
theorem results_of_first_goal : ∃ last : ReuseRun 32 32 16 2,
    run step (init (fun _ => ⟨fun _ => .ok 1, 0, []⟩) ⟨fun _ => true, 0, []⟩
        ⟨fun _ => true, 0, []⟩)
      [.send 0 [], .answer (requestFor (counterGoalId 1)) true ⟨0, 0⟩,
       .getResult (requestFor (counterGoalId 1)) [],
       .complete ⟨counterGoalId 1, .succeeded, [1, 2]⟩,
       .getResult (requestFor (counterGoalId 1)) []] = some last ∧
    last.core.getResultServer.sent = [(7, getResultReply .succeeded [1, 2]),
      (7, getResultReply .succeeded [1, 2])] ∧
    last.Honest ∧ last.Strict := by
  have sent : (run step (init (fun _ => ⟨fun _ => .ok 1, 0, []⟩) ⟨fun _ => true, 0, []⟩
        ⟨fun _ => true, 0, []⟩ : ReuseRun 32 32 16 2)
      [.send 0 [], .answer (requestFor (counterGoalId 1)) true ⟨0, 0⟩,
       .getResult (requestFor (counterGoalId 1)) [],
       .complete ⟨counterGoalId 1, .succeeded, [1, 2]⟩,
       .getResult (requestFor (counterGoalId 1)) []]).map (fun s => s.core.getResultServer.sent) =
      some [(7, getResultReply .succeeded [1, 2]), (7, getResultReply .succeeded [1, 2])] := by
    decide +kernel
  rcases Option.map_eq_some_iff.mp sent with ⟨last, reached, replies⟩
  have latest := results_of_latest_goal_iff _ _ _ _ last reached
  exact ⟨last, reached, replies, latest.1.mpr (by decide +kernel), latest.2 (by decide +kernel)⟩

/-- Two clients, each with its first goal. The result of the first is retained when the second
goal is accepted under the same id: whoever asks for the running goal gets the result of the
earlier one. -/
theorem results_of_earlier_goal : ∃ last : ReuseRun 32 32 16 2,
    run step (init (fun _ => ⟨fun _ => .ok 1, 0, []⟩) ⟨fun _ => true, 0, []⟩
        ⟨fun _ => true, 0, []⟩)
      [.send 0 [], .answer (requestFor (counterGoalId 1)) true ⟨0, 0⟩,
       .complete ⟨counterGoalId 1, .succeeded, [1, 2]⟩,
       .send 1 [], .answer (requestFor (counterGoalId 1)) true ⟨1, 0⟩,
       .getResult (requestFor (counterGoalId 1)) []] = some last ∧
    last.core.knownIds = [counterGoalId 1, counterGoalId 1] ∧
    (∃ a ∈ last.asks, a.before.isActive a.goalId = true ∧
      repliesBetween a.before a.after = [(7, getResultReply .succeeded [1, 2])] ∧
      ¬ Current a.log a.goalId (getResultReply .succeeded [1, 2])) ∧
    ¬ last.Honest ∧ ¬ last.Strict := by
  have seen : (run step (init (fun _ => ⟨fun _ => .ok 1, 0, []⟩) ⟨fun _ => true, 0, []⟩
        ⟨fun _ => true, 0, []⟩ : ReuseRun 32 32 16 2)
      [.send 0 [], .answer (requestFor (counterGoalId 1)) true ⟨0, 0⟩,
       .complete ⟨counterGoalId 1, .succeeded, [1, 2]⟩,
       .send 1 [], .answer (requestFor (counterGoalId 1)) true ⟨1, 0⟩,
       .getResult (requestFor (counterGoalId 1)) []]).map (fun s => (s.core.knownIds,
        s.asks.any fun a => a.before.isActive a.goalId && standing a.log == [] &&
          repliesBetween a.before a.after == [(7, getResultReply .succeeded [1, 2])])) =
      some ([counterGoalId 1, counterGoalId 1], true) := by
    decide +kernel
  rcases Option.map_eq_some_iff.mp seen with ⟨last, reached, facts⟩
  rw [Prod.mk.injEq, List.any_eq_true] at facts
  rcases facts with ⟨known, a, member, stale⟩
  simp only [Bool.and_eq_true, beq_iff_eq] at stale
  rcases stale with ⟨⟨active, nothing⟩, replied⟩
  -- a running goal was answered, and with a result that does not stand
  have answered : ¬ repliesBetween a.before a.after = [] := by
    rw [replied]
    exact List.cons_ne_nil _ _
  refine ⟨last, reached, known, ⟨a, member, active, replied, not_current nothing⟩, ?_, ?_⟩
  · intro honest
    exact answered ((honest.asks a member).deferred active).1
  · intro strict
    exact answered ((strict.asks a member).deferred active).1

end ReuseRun

end NanoRos
