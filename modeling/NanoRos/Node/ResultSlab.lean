import NanoRos.Lib.SlotTable
import NanoRos.Node.ActionCore

/-! The result slab of an action server over its whole life: whatever is completed, evicted, expired
and fetched, every retained entry holds the bytes of its goal's latest completion. -/

namespace NanoRos

open Memory

structure Completion where
  goalId : GoalUuid
  status : GoalStatusCode
  resultCdr : List UInt8
  deriving DecidableEq, Repr

/-- The latest completion of a goal; the history is oldest first. -/
def mostRecent (history : List Completion) (goalId : GoalUuid) : Option Completion :=
  history.reverse.find? fun c => c.goalId = goalId

theorem mostRecent_append (history : List Completion) (c : Completion) (goalId : GoalUuid) :
    mostRecent (history ++ [c]) goalId =
      if c.goalId = goalId then some c else mostRecent history goalId := by
  rw [mostRecent, List.reverse_append, List.reverse_singleton, List.singleton_append,
    List.find?_cons]
  by_cases same : c.goalId = goalId
  · simp [same]
  · simp [same, mostRecent]

/-- The goals in the order of their latest completions. -/
def completionOrder (history : List Completion) : List GoalUuid :=
  (history.map Completion.goalId).dedup

theorem dedup_concat {α : Type} [DecidableEq α] (l : List α) (a : α) :
    (l ++ [a]).dedup = l.dedup.filter (· ≠ a) ++ [a] := by
  induction l with
  | nil => simp
  | cons b rest ih =>
    rw [List.cons_append]
    by_cases repeated : b ∈ rest
    · rw [List.dedup_cons_of_mem repeated, List.dedup_cons_of_mem (by simp [repeated]), ih]
    · by_cases same : b = a
      · rw [List.dedup_cons_of_mem (by simp [same]), List.dedup_cons_of_notMem repeated, ih,
          List.filter_cons_of_neg (by simp [same])]
      · rw [List.dedup_cons_of_notMem (by simp [repeated, same]),
          List.dedup_cons_of_notMem repeated, ih, List.filter_cons_of_pos (by simp [same]),
          List.cons_append]

/-- `entries` over a slab of `resultBuf` bytes of which `used` are taken. -/
structure SlabHolds (resultBuf : Nat) (entries : List CompletedResultEntry) (slab : List UInt8)
    (used : Nat) (history : List Completion) : Prop where
  stacked : resultExtents.Stacked 0 entries
  used_eq : used = resultExtents.total entries
  room : used ≤ resultBuf
  sized : slab.length = resultBuf
  distinct : (entries.map CompletedResultEntry.goalId).Nodup
  ordered : (entries.map CompletedResultEntry.goalId).Sublist (completionOrder history)
  latest : ∀ e ∈ entries,
    mostRecent history e.goalId = some ⟨e.goalId, e.status, resultExtents.held slab e⟩

namespace SlabHolds

variable {resultBuf used : Nat} {entries : List CompletedResultEntry} {slab : List UInt8}
  {history : List Completion}

section

variable (holds : SlabHolds resultBuf entries slab used history)
include holds

theorem inside (e : CompletedResultEntry) (member : e ∈ entries) : e.offset + e.len ≤ used := by
  have stop := holds.stacked.stop_le member
  rw [Nat.zero_add, ← holds.used_eq] at stop
  exact stop

theorem reclaim {kept : List CompletedResultEntry} (fewer : kept.Sublist entries) :
    SlabHolds resultBuf (resultExtents.compact 0 kept slab).2.1
      (resultExtents.compact 0 kept slab).2.2 (resultExtents.compact 0 kept slab).1 history ∧
    (resultExtents.compact 0 kept slab).2.1.map CompletedResultEntry.goalId =
      kept.map CompletedResultEntry.goalId := by
  have compacted := Extents.compact_spec kept 0 slab (holds.stacked.ascending.sublist fewer) (by
    intro e member
    have stop := holds.inside e (fewer.subset member)
    have room := holds.room
    rw [holds.sized]
    exact Nat.le_trans stop room)
  have ids := compacted.map_eq (fun e _ => e.goalId) (fun _ _ _ => rfl)
  have completions := compacted.map_eq (fun e bytes => (⟨e.goalId, e.status, bytes⟩ : Completion))
    (fun _ _ _ => rfl)
  refine ⟨⟨compacted.stacked, ?_, ?_, compacted.length.trans holds.sized, ?_, ?_, ?_⟩, ids⟩
  · rw [compacted.used, compacted.total_eq, Nat.zero_add]
  · have less : resultExtents.total kept ≤ resultExtents.total entries := Extents.total_sublist fewer
    have room := holds.room
    rw [holds.used_eq] at room
    rw [compacted.used]
    omega
  · rw [ids]
    exact (fewer.map _).nodup holds.distinct
  · rw [ids]
    exact (fewer.map _).trans holds.ordered
  · intro e' member
    -- Find the entry `e'` was before the move.
    have listed := List.mem_map_of_mem (f := fun e => (⟨e.goalId, e.status,
      resultExtents.held (resultExtents.compact 0 kept slab).2.2 e⟩ : Completion)) member
    rw [completions] at listed
    rcases List.mem_map.mp listed with ⟨e, before, same⟩
    rw [← same]
    rcases Completion.mk.inj same with ⟨goal, _, _⟩
    rw [← goal]
    exact holds.latest e (fewer.subset before)

theorem ordered_without {goal : GoalUuid}
    (absent : goal ∉ entries.map CompletedResultEntry.goalId) :
    (entries.map CompletedResultEntry.goalId).Sublist
      ((completionOrder history).filter (· ≠ goal)) := by
  have others : (entries.map CompletedResultEntry.goalId).filter (· ≠ goal) =
      entries.map CompletedResultEntry.goalId := by
    rw [List.filter_eq_self]
    intro other member
    rw [decide_eq_true_eq]
    rintro rfl
    exact absent member
  rw [← others]
  exact holds.ordered.filter _

theorem note (c : Completion) (absent : c.goalId ∉ entries.map CompletedResultEntry.goalId) :
    SlabHolds resultBuf entries slab used (history ++ [c]) where
  stacked := holds.stacked
  used_eq := holds.used_eq
  room := holds.room
  sized := holds.sized
  distinct := holds.distinct
  ordered := by
    rw [completionOrder, List.map_append, List.map_singleton, dedup_concat]
    exact (holds.ordered_without absent).trans (List.sublist_append_left _ _)
  latest := by
    intro e member
    rw [mostRecent_append, if_neg, holds.latest e member]
    intro same
    exact absent (List.mem_map.mpr ⟨e, member, same.symm⟩)

theorem push (c : Completion) (absent : c.goalId ∉ entries.map CompletedResultEntry.goalId)
    (fits : used + c.resultCdr.length ≤ resultBuf) :
    SlabHolds resultBuf (entries ++ [⟨c.goalId, c.status, used, c.resultCdr.length, false⟩])
      (overwrite slab used c.resultCdr) (used + c.resultCdr.length) (history ++ [c]) := by
  have noted := holds.note c absent
  have sized := holds.sized
  have total := holds.used_eq
  constructor
  · exact holds.stacked.append (by rw [Nat.zero_add]; exact total)
  · rw [total, Extents.total, Extents.total, List.map_append, List.sum_append]
    rfl
  · exact fits
  · rw [length_overwrite _ _ _ (by omega), sized]
  · rw [List.map_append, List.map_singleton, ← List.concat_eq_append]
    exact List.Nodup.concat absent holds.distinct
  · rw [completionOrder, List.map_append, List.map_append, List.map_singleton, List.map_singleton,
      dedup_concat]
    exact (holds.ordered_without absent).append (List.Sublist.refl _)
  · intro e member
    rcases List.mem_append.mp member with old | new
    · have kept : resultExtents.held (overwrite slab used c.resultCdr) e =
          resultExtents.held slab e := by
        apply Extents.held_overwrite (by omega)
        exact .inl (holds.inside e old)
      rw [noted.latest e old, kept]
    · rw [List.mem_singleton.mp new, mostRecent_append, if_pos rfl]
      have stored := slice_overwrite_same slab used c.resultCdr (by omega)
      exact congrArg (fun bytes => some (Completion.mk c.goalId c.status bytes)) stored.symm

theorem update (p : CompletedResultEntry → Bool) :
    SlabHolds resultBuf (updateFirst p (fun e => { e with delivered := true }) entries) slab used
      history := by
  have ids := map_updateFirst p (fun e : CompletedResultEntry => { e with delivered := true })
    CompletedResultEntry.goalId (fun _ => rfl) entries
  have extents := map_updateFirst p (fun e : CompletedResultEntry => { e with delivered := true })
    (fun e => (resultExtents.offset e, resultExtents.len e)) (fun _ => rfl) entries
  have lens := map_updateFirst p (fun e : CompletedResultEntry => { e with delivered := true })
    resultExtents.len (fun _ => rfl) entries
  constructor
  · exact holds.stacked.congr extents
  · rw [Extents.total, lens]
    exact holds.used_eq
  · exact holds.room
  · exact holds.sized
  · rw [ids]
    exact holds.distinct
  · rw [ids]
    exact holds.ordered
  · intro e member
    rcases mem_updateFirst member with same | ⟨before, listed, rfl⟩
    · exact holds.latest e same
    · exact holds.latest before listed

end

end SlabHolds

namespace ActionServerCore

variable {goalBuf resultBuf maxGoals : Nat} {history : List Completion}

def Holds (core : ActionServerCore goalBuf resultBuf maxGoals) (history : List Completion) : Prop :=
  SlabHolds resultBuf core.completedResults.items core.resultSlab core.resultSlabUsed history

def retained (core : ActionServerCore goalBuf resultBuf maxGoals) : List GoalUuid :=
  core.completedResults.items.map CompletedResultEntry.goalId

/-- Only the retained results differ. -/
def Reclaimed (core core' : ActionServerCore goalBuf resultBuf maxGoals) : Prop :=
  ∃ completed slab used, core' = { core with
    completedResults := completed
    resultSlab := slab
    resultSlabUsed := used }

theorem Reclaimed.refl (core : ActionServerCore goalBuf resultBuf maxGoals) :
    Reclaimed core core := ⟨_, _, _, rfl⟩

theorem Reclaimed.trans {first second third : ActionServerCore goalBuf resultBuf maxGoals}
    (step : Reclaimed first second) (rest : Reclaimed second third) : Reclaimed first third := by
  rcases step with ⟨_, _, _, rfl⟩
  rcases rest with ⟨_, _, _, rfl⟩
  exact ⟨_, _, _, rfl⟩

variable {core : ActionServerCore goalBuf resultBuf maxGoals}

theorem compactResultSlab_holds (holds : core.Holds history)
    (kept : BoundedVec CompletedResultEntry maxGoals)
    (fewer : kept.items.Sublist core.completedResults.items) :
    (core.setCompletedResults kept).compactResultSlab.Holds history ∧
    (core.setCompletedResults kept).compactResultSlab.retained =
      kept.items.map CompletedResultEntry.goalId :=
  holds.reclaim fewer

theorem dropCompletedResult_holds (holds : core.Holds history) (goalId : GoalUuid) :
    (core.dropCompletedResult goalId).2.Holds history ∧
    goalId ∉ (core.dropCompletedResult goalId).2.retained ∧
    Reclaimed core (core.dropCompletedResult goalId).2 := by
  cases found : core.completedResults.items.findIdx? (fun entry => entry.goalId = goalId) with
  | none =>
    simp only [dropCompletedResult, found]
    refine ⟨holds, ?_, Reclaimed.refl core⟩
    intro listed
    rcases List.mem_map.mp listed with ⟨entry, member, same⟩
    have missed := List.findIdx?_eq_none_iff.mp found entry member
    simp [same] at missed
  | some idx =>
    rcases List.findIdx?_eq_some_iff_getElem.mp found with ⟨inside, hit, _⟩
    have same : (core.completedResults.items[idx]).goalId = goalId := by simpa using hit
    simp only [dropCompletedResult, found]
    rcases compactResultSlab_holds holds (core.completedResults.remove idx)
      (List.eraseIdx_sublist _ _) with ⟨kept, ids⟩
    refine ⟨kept, ?_, ⟨_, _, _, rfl⟩⟩
    have others := eraseIdx_eq_filter CompletedResultEntry.goalId core.completedResults.items
      holds.distinct idx _ (List.getElem?_eq_getElem inside)
    rw [ids, BoundedVec.items_remove, others, same]
    intro listed
    rcases List.mem_map.mp listed with ⟨entry, member, own⟩
    have differs := (List.mem_filter.mp member).2
    simp [own] at differs

theorem evictOneCompletedResult_cases (holds : core.Holds history) :
    (core.completedResults.items = [] ∧ core.evictOneCompletedResult = (false, core)) ∨
    ∃ core', core.evictOneCompletedResult = (true, core') ∧ core'.Holds history ∧
      core'.retained.Sublist core.retained ∧
      core'.completedResults.len + 1 = core.completedResults.len ∧ Reclaimed core core' := by
  cases listed : core.completedResults.items with
  | nil => exact .inl ⟨rfl, by rw [evictOneCompletedResult, listed]; rfl⟩
  | cons first rest =>
    have some : ¬ core.completedResults.items.isEmpty = true := by simp [listed]
    rw [evictOneCompletedResult, if_neg some]
    have inside : (core.completedResults.items.findIdx? fun entry => entry.delivered).getD 0 <
        core.completedResults.items.length := by
      cases found : core.completedResults.items.findIdx? (fun entry => entry.delivered) with
      | none =>
        rw [listed]
        exact Nat.zero_lt_succ _
      | some idx => exact (List.findIdx?_eq_some_iff_getElem.mp found).1
    rcases compactResultSlab_holds holds (core.completedResults.remove
      ((core.completedResults.items.findIdx? fun entry => entry.delivered).getD 0))
      (List.eraseIdx_sublist _ _) with ⟨kept, ids⟩
    refine .inr ⟨_, rfl, kept, ?_, ?_, ⟨_, _, _, rfl⟩⟩
    · rw [ids]
      exact (List.eraseIdx_sublist _ _).map _
    · have fewer := congrArg List.length ids
      rw [retained, List.length_map, List.length_map, BoundedVec.items_remove,
        List.length_eraseIdx_of_lt inside] at fewer
      rw [BoundedVec.len, BoundedVec.len, fewer]
      omega

theorem reserveLoop_holds (needed turns : Nat) (holds : core.Holds history) :
    (reserveLoop needed turns core).2.Holds history ∧
    (reserveLoop needed turns core).2.retained.Sublist core.retained ∧
    Reclaimed core (reserveLoop needed turns core).2 ∧
    ((reserveLoop needed turns core).1 = .ok () →
      (reserveLoop needed turns core).2.completedResults.len < maxGoals ∧
      resultBuf - (reserveLoop needed turns core).2.resultSlabUsed ≥ needed) := by
  induction turns generalizing core with
  | zero => exact ⟨holds, List.Sublist.refl _, Reclaimed.refl core, fun ok => by cases ok⟩
  | succ turns ih =>
    by_cases ready : core.completedResults.len < maxGoals ∧
        resultBuf - core.resultSlabUsed ≥ needed
    · rw [reserveLoop, if_pos ready]
      exact ⟨holds, List.Sublist.refl _, Reclaimed.refl core, fun _ => ready⟩
    · rw [reserveLoop, if_neg ready]
      rcases evictOneCompletedResult_cases holds with
        ⟨_, nothing⟩ | ⟨core', evicted, kept, fewer, _, reclaimed⟩
      · rw [nothing]
        exact ⟨holds, List.Sublist.refl _, Reclaimed.refl core, fun ok => by cases ok⟩
      · rw [evicted]
        rcases ih kept with ⟨holds', fewer', reclaimed', ready'⟩
        exact ⟨holds', fewer'.trans fewer, reclaimed.trans reclaimed', ready'⟩

theorem reserveLoop_ok (needed turns : Nat) (positive : 1 ≤ maxGoals) (fits : needed ≤ resultBuf)
    (holds : core.Holds history) (enough : core.completedResults.len < turns) :
    (reserveLoop needed turns core).1 = .ok () := by
  induction turns generalizing core with
  | zero => cases enough
  | succ turns ih =>
    by_cases ready : core.completedResults.len < maxGoals ∧
        resultBuf - core.resultSlabUsed ≥ needed
    · rw [reserveLoop, if_pos ready]
    · rw [reserveLoop, if_neg ready]
      rcases evictOneCompletedResult_cases holds with
        ⟨empty, _⟩ | ⟨core', evicted, kept, _, shorter, _⟩
      · have unused : core.resultSlabUsed = 0 := by
          rw [holds.used_eq, empty]
          rfl
        have none : core.completedResults.len = 0 := by
          rw [BoundedVec.len, empty]
          rfl
        exact absurd ⟨by omega, by omega⟩ ready
      · rw [evicted]
        exact ih kept (by omega)

theorem reserveResultSpace_eq_ok (positive : 1 ≤ maxGoals) (needed : Nat)
    (holds : core.Holds history) :
    (core.reserveResultSpace needed).1 = .ok () ↔ needed ≤ resultBuf := by
  rw [reserveResultSpace]
  split
  case isTrue large =>
    constructor
    · intro ok
      cases ok
    · intro fits
      omega
  case isFalse small =>
    have fits : needed ≤ resultBuf := Nat.not_lt.mp small
    exact ⟨fun _ => fits, fun _ =>
      reserveLoop_ok needed _ positive fits holds (Nat.lt_succ_self _)⟩

theorem reserveResultSpace_holds (needed : Nat) (holds : core.Holds history) :
    (core.reserveResultSpace needed).2.Holds history ∧
    (core.reserveResultSpace needed).2.retained.Sublist core.retained ∧
    Reclaimed core (core.reserveResultSpace needed).2 ∧
    ((core.reserveResultSpace needed).1 = .ok () →
      (core.reserveResultSpace needed).2.completedResults.len < maxGoals ∧
      (core.reserveResultSpace needed).2.resultSlabUsed + needed ≤ resultBuf) := by
  rw [reserveResultSpace]
  split
  case isTrue => exact ⟨holds, List.Sublist.refl _, Reclaimed.refl core, fun ok => by cases ok⟩
  case isFalse small =>
    rcases reserveLoop_holds needed (core.completedResults.len + 1) holds with
      ⟨kept, fewer, reclaimed, ready⟩
    refine ⟨kept, fewer, reclaimed, fun ok => ⟨(ready ok).1, ?_⟩⟩
    have space := (ready ok).2
    have room := kept.room
    omega

theorem storeResult_holds (holds : core.Holds history) (c : Completion)
    (absent : c.goalId ∉ core.retained) :
    (core.storeResult c.goalId c.status c.resultCdr).2.Holds (history ++ [c]) ∧
    Reclaimed core (core.storeResult c.goalId c.status c.resultCdr).2 ∧
    (∀ offset len, (core.storeResult c.goalId c.status c.resultCdr).1 = some (offset, len) →
      len = c.resultCdr.length ∧
      slice (core.storeResult c.goalId c.status c.resultCdr).2.resultSlab offset len =
        c.resultCdr) := by
  rcases reserveResultSpace_holds c.resultCdr.length holds with ⟨kept, fewer, reclaimed, ready⟩
  have absent' := fun listed => absent (fewer.subset listed)
  simp only [storeResult]
  rcases reserved : core.reserveResultSpace c.resultCdr.length with ⟨_ | _, core'⟩
  · rw [reserved] at kept reclaimed absent'
    refine ⟨kept.note c absent', reclaimed, ?_⟩
    intro offset len stored
    cases stored
  · rw [reserved] at kept reclaimed absent' ready
    rcases ready rfl with ⟨slot, space⟩
    rcases core'.completedResults.push_of_room
      ⟨c.goalId, c.status, core'.resultSlabUsed, c.resultCdr.length, false⟩ slot with
      ⟨completed, pushed, items⟩
    dsimp only at *
    rw [pushed, Option.getD_some]
    refine ⟨?_, reclaimed.trans ⟨_, _, _, rfl⟩, ?_⟩
    · have stored := kept.push c absent' space
      rw [← items] at stored
      exact stored
    · intro offset len stored
      cases stored
      refine ⟨rfl, slice_overwrite_same _ _ _ ?_⟩
      have sized := kept.sized
      omega

variable (core)

theorem replyGetResult_frame (sequenceNumber : Int64) (status : GoalStatusCode) (len : Nat)
    (bytes : List UInt8) :
    ∃ buf server, (core.replyGetResult sequenceNumber status len bytes).2 = { core with
      goalBuffer := buf
      getResultServer := server } := by
  rw [replyGetResult]
  cases written : core.writeGetResultHeader status with
  | error e => exact ⟨_, _, rfl⟩
  | ok header =>
    rcases header with ⟨pos, core'⟩
    have framed : ∃ buf, core' = { core with goalBuffer := buf } := by
      simp only [writeGetResultHeader, bind, Except.bind, pure, Except.pure] at written
      repeat' split at written
      all_goals cases written
      exact ⟨_, rfl⟩
    rcases framed with ⟨buf, rfl⟩
    dsimp only
    split
    · exact ⟨_, _, rfl⟩
    · exact ⟨_, _, rfl⟩

theorem replyWaiter_frame (status : GoalStatusCode) (resultCdr : List UInt8)
    (stored : Option (Nat × Nat)) (seq : Int64) :
    ∃ buf server, (core.replyWaiter status resultCdr stored seq).2 = { core with
      goalBuffer := buf
      getResultServer := server } := by
  rcases stored with _ | ⟨offset, len⟩
  · exact core.replyGetResult_frame seq status _ _
  · exact core.replyGetResult_frame seq status _ _

variable {core}

theorem flushLoop_frame (goalId : GoalUuid) (status : GoalStatusCode) (resultCdr : List UInt8)
    (stored : Option (Nat × Nat)) (turns i : Nat) (delivered : Bool)
    (core : ActionServerCore goalBuf resultBuf maxGoals) :
    ∃ pending buf server,
      (flushLoop goalId status resultCdr stored turns i delivered core).2 = { core with
        pendingGetResults := pending
        goalBuffer := buf
        getResultServer := server } := by
  induction turns generalizing i delivered core with
  | zero => exact ⟨_, _, _, rfl⟩
  | succ turns ih =>
    rw [flushLoop]
    split
    case h_1 => exact ⟨_, _, _, rfl⟩
    case h_2 waiter _ =>
      split
      · rcases (core.removeWaiter i).replyWaiter_frame status resultCdr stored
          waiter.sequenceNumber with ⟨buf, server, replied⟩
        dsimp only
        rw [replied]
        rcases ih i _ _ with ⟨pending, buf', server', rest⟩
        exact ⟨pending, buf', server', rest⟩
      · exact ih (i + 1) delivered core

theorem markResultDelivered_holds (holds : core.Holds history) (goalId : GoalUuid) :
    (core.markResultDelivered goalId).Holds history :=
  holds.update _

theorem flushWaiters_holds (holds : core.Holds history) (goalId : GoalUuid)
    (status : GoalStatusCode) (resultCdr : List UInt8) (stored : Option (Nat × Nat)) :
    (core.flushWaiters goalId status resultCdr stored).Holds history := by
  rcases flushLoop_frame goalId status resultCdr stored core.pendingGetResults.len 0 false core with
    ⟨pending, buf, server, flushed⟩
  have kept : (flushLoop goalId status resultCdr stored core.pendingGetResults.len 0 false
      core).2.Holds history := by
    rw [flushed]
    exact holds
  rw [flushWaiters]
  split
  · exact markResultDelivered_holds kept goalId
  · exact kept

theorem removeActiveGoal_frame (core : ActionServerCore goalBuf resultBuf maxGoals)
    (goalId : GoalUuid) :
    ∃ active, core.removeActiveGoal goalId = { core with activeGoals := active } := by
  rw [removeActiveGoal]
  split
  · exact ⟨_, rfl⟩
  · exact ⟨_, rfl⟩

theorem completeGoalRaw_flushes (holds : core.Holds history) (c : Completion) :
    ∃ stored : Option (Nat × Nat), ∃ core',
      Reclaimed (core.removeActiveGoal c.goalId) core' ∧ core'.Holds (history ++ [c]) ∧
      (∀ offset len, stored = some (offset, len) → len = c.resultCdr.length ∧
        slice core'.resultSlab offset len = c.resultCdr) ∧
      core.completeGoalRaw c.goalId c.status c.resultCdr =
        (if stored.isSome then .ok () else .error .bufferTooSmall,
          core'.flushWaiters c.goalId c.status c.resultCdr stored) := by
  have started : (core.removeActiveGoal c.goalId).Holds history := by
    rcases core.removeActiveGoal_frame c.goalId with ⟨active, ended⟩
    rw [ended]
    exact holds
  rcases dropCompletedResult_holds started c.goalId with ⟨dropped, absent, reclaimed⟩
  rcases storeResult_holds dropped c absent with ⟨stored, kept, bytes⟩
  exact ⟨_, _, reclaimed.trans kept, stored, bytes, rfl⟩

theorem completeGoalRaw_holds (holds : core.Holds history) (c : Completion) :
    (core.completeGoalRaw c.goalId c.status c.resultCdr).2.Holds (history ++ [c]) := by
  rcases completeGoalRaw_flushes holds c with ⟨stored, core', _, kept, _, completed⟩
  rw [completed]
  exact flushWaiters_holds kept c.goalId c.status c.resultCdr stored

theorem storeResult_retains (positive : 1 ≤ maxGoals) (holds : core.Holds history) (c : Completion)
    (fits : c.resultCdr.length ≤ resultBuf) :
    (core.storeResult c.goalId c.status c.resultCdr).1.isSome = true ∧
    c.goalId ∈ (core.storeResult c.goalId c.status c.resultCdr).2.retained := by
  have ok := (reserveResultSpace_eq_ok positive c.resultCdr.length holds).mpr fits
  rcases reserveResultSpace_holds c.resultCdr.length holds with ⟨_, _, _, ready⟩
  simp only [storeResult]
  rcases reserved : core.reserveResultSpace c.resultCdr.length with ⟨_ | _, core'⟩
  · rw [reserved] at ok
    cases ok
  · rw [reserved] at ready
    rcases core'.completedResults.push_of_room
      ⟨c.goalId, c.status, core'.resultSlabUsed, c.resultCdr.length, false⟩ (ready rfl).1 with
      ⟨completed, pushed, items⟩
    refine ⟨rfl, ?_⟩
    simp only [retained, pushed, Option.getD_some, items, List.map_append]
    exact List.mem_append_right _ List.mem_cons_self

theorem flushWaiters_retained (core : ActionServerCore goalBuf resultBuf maxGoals)
    (goalId : GoalUuid) (status : GoalStatusCode) (resultCdr : List UInt8)
    (stored : Option (Nat × Nat)) :
    (core.flushWaiters goalId status resultCdr stored).retained = core.retained := by
  rcases flushLoop_frame goalId status resultCdr stored core.pendingGetResults.len 0 false core with
    ⟨pending, buf, server, flushed⟩
  rw [flushWaiters]
  split
  · rw [flushed]
    exact map_updateFirst _ (fun entry : CompletedResultEntry => { entry with delivered := true })
      CompletedResultEntry.goalId (fun _ => rfl) _
  · rw [flushed]
    rfl

theorem completeGoalRaw_retains (positive : 1 ≤ maxGoals) (holds : core.Holds history)
    (c : Completion) (fits : c.resultCdr.length ≤ resultBuf) :
    (core.completeGoalRaw c.goalId c.status c.resultCdr).1 = .ok () ∧
    c.goalId ∈ (core.completeGoalRaw c.goalId c.status c.resultCdr).2.retained := by
  have started : (core.removeActiveGoal c.goalId).Holds history := by
    rcases core.removeActiveGoal_frame c.goalId with ⟨active, ended⟩
    rw [ended]
    exact holds
  have dropped := (dropCompletedResult_holds started c.goalId).1
  rcases storeResult_retains positive dropped c fits with ⟨stored, listed⟩
  rw [completeGoalRaw]
  exact ⟨if_pos stored, by rwa [flushWaiters_retained]⟩

theorem completeGoalRaw_frame (holds : core.Holds history) (c : Completion) :
    ∃ completed slab used pending buf server,
      (core.completeGoalRaw c.goalId c.status c.resultCdr).2 =
        { core.removeActiveGoal c.goalId with
          completedResults := completed
          resultSlab := slab
          resultSlabUsed := used
          pendingGetResults := pending
          goalBuffer := buf
          getResultServer := server } := by
  rcases completeGoalRaw_flushes holds c with ⟨stored, core', reclaimed, _, _, completed⟩
  rcases reclaimed with ⟨results, slab, used, rfl⟩
  rw [completed, flushWaiters]
  rcases flushLoop_frame c.goalId c.status c.resultCdr stored _ 0 false
    { core.removeActiveGoal c.goalId with
      completedResults := results
      resultSlab := slab
      resultSlabUsed := used } with ⟨pending, buf, server, flushed⟩
  dsimp only
  split
  · rw [flushed]
    exact ⟨_, _, _, _, _, _, rfl⟩
  · rw [flushed]
    exact ⟨_, _, _, _, _, _, rfl⟩

theorem expireCompletedResults_holds (holds : core.Holds history) :
    core.expireCompletedResults.2.Holds history := by
  have fewer : (core.completedResults.retain fun e => !e.delivered).items.Sublist
      core.completedResults.items := List.filter_sublist
  simp only [expireCompletedResults]
  split
  case isTrue => exact (compactResultSlab_holds holds _ fewer).1
  case isFalse nothing =>
    -- Nothing was removed, so the table is the one before.
    have bound := fewer.length_le
    have same : (core.completedResults.retain fun e => !e.delivered).items =
        core.completedResults.items := by
      apply fewer.eq_of_length_le
      simp only [BoundedVec.len, setCompletedResults] at nothing
      omega
    change SlabHolds resultBuf (core.completedResults.retain fun e => !e.delivered).items _ _ _
    rw [same]
    exact holds

theorem expireCompletedResults_frame (core : ActionServerCore goalBuf resultBuf maxGoals) :
    Reclaimed core core.expireCompletedResults.2 := by
  simp only [expireCompletedResults]
  split
  · exact ⟨_, _, _, rfl⟩
  · exact ⟨_, _, _, rfl⟩

theorem answerGetResult_holds (holds : core.Holds history) (goalId : GoalUuid)
    (sequenceNumber : Int64) (defaultResultCdr : List UInt8) :
    (core.answerGetResult goalId sequenceNumber defaultResultCdr).2.Holds history := by
  have replied (status : GoalStatusCode) (len : Nat) (bytes : List UInt8) :
      (core.replyGetResult sequenceNumber status len bytes).2.Holds history := by
    rcases core.replyGetResult_frame sequenceNumber status len bytes with ⟨_, _, same⟩
    rw [same]
    exact holds
  rw [answerGetResult]
  cases core.completedResults.items.find? (fun entry => decide (entry.goalId = goalId)) with
  | some entry =>
    have kept := replied entry.status entry.len (slice core.resultSlab entry.offset entry.len)
    dsimp only [replyGetResultFromSlab]
    split
    case h_1 e core' sent =>
      rw [sent] at kept
      exact kept
    case h_2 core' sent =>
      rw [sent] at kept
      exact markResultDelivered_holds kept goalId
  | none =>
    dsimp only
    split
    · split
      · exact holds
      · exact holds
    · have kept := replied .unknown defaultResultCdr.length defaultResultCdr
      dsimp only [replyGetResultBytes]
      split
      case h_1 e core' sent =>
        rw [sent] at kept
        exact kept
      case h_2 core' sent =>
        rw [sent] at kept
        exact kept

theorem tryHandleGetResultRaw_holds (holds : core.Holds history) (take : Take goalBuf)
    (defaultResultCdr : List UInt8) :
    (core.tryHandleGetResultRaw take defaultResultCdr).2.Holds history := by
  simp only [tryHandleGetResultRaw]
  split
  · exact holds
  · exact holds
  · split
    · exact holds
    · apply answerGetResult_holds
      exact holds

variable (core)

theorem answerGetResult_frame (goalId : GoalUuid) (sequenceNumber : Int64)
    (defaultResultCdr : List UInt8) :
    ∃ completed pending buf server,
      (core.answerGetResult goalId sequenceNumber defaultResultCdr).2 = { core with
        completedResults := completed
        pendingGetResults := pending
        goalBuffer := buf
        getResultServer := server } := by
  rw [answerGetResult]
  cases core.completedResults.items.find? (fun entry => entry.goalId = goalId) with
  | some entry =>
    rcases core.replyGetResult_frame sequenceNumber entry.status entry.len
      (slice core.resultSlab entry.offset entry.len) with ⟨buf, server, replied⟩
    dsimp only [replyGetResultFromSlab]
    split
    case h_1 e core' sent =>
      rw [sent] at replied
      exact ⟨_, _, _, _, replied⟩
    case h_2 core' sent =>
      rw [sent] at replied
      dsimp only at replied
      rw [replied]
      exact ⟨_, _, _, _, rfl⟩
  | none =>
    dsimp only
    split
    · split
      · exact ⟨_, _, _, _, rfl⟩
      · exact ⟨_, _, _, _, rfl⟩
    · rcases core.replyGetResult_frame sequenceNumber .unknown defaultResultCdr.length
        defaultResultCdr with ⟨buf, server, replied⟩
      dsimp only [replyGetResultBytes]
      split
      case h_1 e core' sent =>
        rw [sent] at replied
        exact ⟨_, _, _, _, replied⟩
      case h_2 core' sent =>
        rw [sent] at replied
        exact ⟨_, _, _, _, replied⟩

theorem tryHandleGetResultRaw_frame (take : Take goalBuf) (defaultResultCdr : List UInt8) :
    ∃ completed pending buf server,
      (core.tryHandleGetResultRaw take defaultResultCdr).2 = { core with
        completedResults := completed
        pendingGetResults := pending
        goalBuffer := buf
        getResultServer := server } := by
  simp only [tryHandleGetResultRaw]
  split
  · exact ⟨_, _, _, _, rfl⟩
  · exact ⟨_, _, _, _, rfl⟩
  · split
    · exact ⟨_, _, _, _, rfl⟩
    · rcases (core.takeRequest take).answerGetResult_frame _ _ defaultResultCdr with
        ⟨completed, pending, buf, server, answered⟩
      exact ⟨completed, pending, buf, server, answered⟩

theorem goalReply_frame {accepted : UInt8} {stamp : Time}
    {reply : Nat × ActionServerCore goalBuf resultBuf maxGoals}
    (written : core.goalReply accepted stamp = .ok reply) :
    ∃ cancel, reply.2 = { core with cancelBuffer := cancel } := by
  simp only [goalReply, bind, Except.bind, pure, Except.pure] at written
  repeat' split at written
  all_goals cases written
  exact ⟨_, rfl⟩

theorem rejectGoal_frame (seq : Int64) :
    ∃ server cancel, (core.rejectGoal seq).2 = { core with
      sendGoalServer := server
      cancelBuffer := cancel } := by
  rw [rejectGoal]
  cases written : core.goalReply 0 ⟨0, 0⟩ with
  | error e => exact ⟨_, _, rfl⟩
  | ok reply =>
    rcases reply with ⟨replyLen, core'⟩
    rcases core.goalReply_frame written with ⟨cancel, framed⟩
    dsimp only at framed
    subst framed
    exact ⟨_, _, rfl⟩

theorem acceptGoal_frame (goalId : GoalUuid) (seq : Int64) (stamp : Time) :
    ∃ server active cancel, (core.acceptGoal goalId seq stamp).2 = { core with
      sendGoalServer := server
      activeGoals := active
      cancelBuffer := cancel } := by
  rw [acceptGoal]
  cases written : core.goalReply 1 stamp with
  | error e => exact ⟨_, _, _, rfl⟩
  | ok reply =>
    rcases reply with ⟨replyLen, core'⟩
    rcases core.goalReply_frame written with ⟨cancel, framed⟩
    dsimp only at framed
    subst framed
    dsimp only
    split
    · rcases rejectGoal_frame { core with cancelBuffer := cancel } seq with ⟨_, _, rejected⟩
      rw [rejected]
      exact ⟨_, _, _, rfl⟩
    · split
      · exact ⟨_, _, _, rfl⟩
      · exact ⟨_, _, _, rfl⟩

variable {core}

theorem acceptGoal_keeps (holds : core.Holds history) (goalId : GoalUuid) (seq : Int64)
    (stamp : Time) : (core.acceptGoal goalId seq stamp).2.Holds history ∧
      (core.acceptGoal goalId seq stamp).2.retained = core.retained := by
  rcases core.acceptGoal_frame goalId seq stamp with ⟨_, _, _, framed⟩
  rw [framed]
  exact ⟨holds, rfl⟩

theorem rejectGoal_keeps (holds : core.Holds history) (seq : Int64) :
    (core.rejectGoal seq).2.Holds history ∧
      (core.rejectGoal seq).2.activeGoals.items = core.activeGoals.items ∧
      (core.rejectGoal seq).2.retained = core.retained := by
  rcases core.rejectGoal_frame seq with ⟨_, _, framed⟩
  rw [framed]
  exact ⟨holds, rfl, rfl⟩

theorem tryRecvGoalRequest_frame (core : ActionServerCore goalBuf resultBuf maxGoals)
    (take : Take goalBuf) : (core.tryRecvGoalRequest take).2 = core.takeRequest take := by
  simp only [tryRecvGoalRequest]
  split
  · rfl
  · rfl
  · split <;> rfl

end ActionServerCore

/-- A server and every completion it was asked for. -/
structure WatchedServer (goalBuf resultBuf maxGoals : Nat) where
  core : ActionServerCore goalBuf resultBuf maxGoals
  history : List Completion

inductive ServerEvent (goalBuf : Nat) where
  | recvGoal (take : Take goalBuf)
  | accept (goalId : GoalUuid) (seq : Int64) (stamp : Time)
  | reject (seq : Int64)
  | setStatus (goalId : GoalUuid) (status : GoalStatusCode)
  | complete (c : Completion)
  | expire
  | getResult (take : Take goalBuf) (defaultResultCdr : List UInt8)

namespace WatchedServer

variable {goalBuf resultBuf maxGoals : Nat}

def init (sendGoalServer getResultServer : ServiceServer) :
    WatchedServer goalBuf resultBuf maxGoals :=
  ⟨.fromChannels sendGoalServer getResultServer, []⟩

def step (w : WatchedServer goalBuf resultBuf maxGoals) :
    ServerEvent goalBuf → Option (WatchedServer goalBuf resultBuf maxGoals)
  | .recvGoal take => some { w with core := (w.core.tryRecvGoalRequest take).2 }
  | .accept goalId seq stamp => some { w with core := (w.core.acceptGoal goalId seq stamp).2 }
  | .reject seq => some { w with core := (w.core.rejectGoal seq).2 }
  | .setStatus goalId status => some { w with core := w.core.setGoalStatus goalId status }
  | .complete c => some
      ⟨(w.core.completeGoalRaw c.goalId c.status c.resultCdr).2, w.history ++ [c]⟩
  | .expire => some { w with core := w.core.expireCompletedResults.2 }
  | .getResult take defaultResultCdr =>
    some { w with core := (w.core.tryHandleGetResultRaw take defaultResultCdr).2 }

theorem holds_init (sendGoalServer getResultServer : ServiceServer) :
    ((init sendGoalServer getResultServer : WatchedServer goalBuf resultBuf maxGoals).core).Holds
      [] where
  stacked := trivial
  used_eq := rfl
  room := Nat.zero_le _
  sized := List.length_replicate
  distinct := List.nodup_nil
  ordered := List.nil_sublist _
  latest := by
    intro e member
    cases member

theorem step_holds (w : WatchedServer goalBuf resultBuf maxGoals) (e : ServerEvent goalBuf)
    (next : WatchedServer goalBuf resultBuf maxGoals) (holds : w.core.Holds w.history)
    (stepped : w.step e = some next) : next.core.Holds next.history := by
  cases e with
  | recvGoal take =>
    cases stepped
    change (w.core.tryRecvGoalRequest take).2.Holds w.history
    rw [w.core.tryRecvGoalRequest_frame take]
    exact holds
  | accept goalId seq stamp =>
    cases stepped
    exact (ActionServerCore.acceptGoal_keeps holds goalId seq stamp).1
  | reject seq =>
    cases stepped
    exact (ActionServerCore.rejectGoal_keeps holds seq).1
  | setStatus goalId status =>
    cases stepped
    exact holds
  | complete c =>
    cases stepped
    exact ActionServerCore.completeGoalRaw_holds holds c
  | expire =>
    cases stepped
    exact ActionServerCore.expireCompletedResults_holds holds
  | getResult take defaultResultCdr =>
    cases stepped
    exact ActionServerCore.tryHandleGetResultRaw_holds holds take defaultResultCdr

/-- The slab's bookkeeping and what it holds. -/
structure SlabExact (w : WatchedServer goalBuf resultBuf maxGoals) : Prop where
  distinct : (w.core.completedResults.items.map CompletedResultEntry.goalId).Nodup
  bounded : w.core.completedResults.items.length ≤ maxGoals
  prefixSums : ∀ i e, w.core.completedResults.items[i]? = some e →
    e.offset = ((w.core.completedResults.items.take i).map CompletedResultEntry.len).sum
  ordered : (w.core.completedResults.items.map CompletedResultEntry.goalId).Sublist
    (completionOrder w.history)
  used : w.core.resultSlabUsed =
    (w.core.completedResults.items.map CompletedResultEntry.len).sum
  room : w.core.resultSlabUsed ≤ resultBuf
  sized : w.core.resultSlab.length = resultBuf
  latest : ∀ e ∈ w.core.completedResults.items, ∃ c, mostRecent w.history e.goalId = some c ∧
    slice w.core.resultSlab e.offset e.len = c.resultCdr

theorem result_slab_exact (sendGoalServer getResultServer : ServiceServer)
    (events : List (ServerEvent goalBuf)) (w : WatchedServer goalBuf resultBuf maxGoals)
    (reached : run step (init sendGoalServer getResultServer) events = some w) : w.SlabExact := by
  have holds := @run_invariant _ _ step (fun w => w.core.Holds w.history) step_holds
    (init sendGoalServer getResultServer) w events
    (holds_init sendGoalServer getResultServer) reached
  constructor
  · exact holds.distinct
  · exact w.core.completedResults.fits
  · intro i e placed
    have sum := holds.stacked.offset_eq placed
    rw [Nat.zero_add] at sum
    exact sum
  · exact holds.ordered
  · exact holds.used_eq
  · exact holds.room
  · exact holds.sized
  · intro e member
    exact ⟨_, holds.latest e member, rfl⟩

/-- Four bytes and two entries: the third completion evicts the result of goal 1, whose place
the result of goal 2 takes. -/
theorem result_slab_after_eviction : ∃ w : WatchedServer 64 4 2,
    run step (init ⟨fun _ => true, 0, []⟩ ⟨fun _ => true, 0, []⟩)
      [.complete ⟨⟨Vector.replicate 16 1⟩, .succeeded, [10, 11]⟩,
       .complete ⟨⟨Vector.replicate 16 2⟩, .succeeded, [20]⟩,
       .complete ⟨⟨Vector.replicate 16 3⟩, .aborted, [30, 31, 32]⟩] = some w ∧
    w.core.completedResults.items.map CompletedResultEntry.offset = [0, 1] ∧
    w.core.resultSlab = [20, 30, 31, 32] ∧ w.SlabExact := by
  refine ⟨_, rfl, by decide, by decide, ?_⟩
  exact result_slab_exact ⟨fun _ => true, 0, []⟩ ⟨fun _ => true, 0, []⟩
    [.complete ⟨⟨Vector.replicate 16 1⟩, .succeeded, [10, 11]⟩,
     .complete ⟨⟨Vector.replicate 16 2⟩, .succeeded, [20]⟩,
     .complete ⟨⟨Vector.replicate 16 3⟩, .aborted, [30, 31, 32]⟩] _ rfl

end WatchedServer

end NanoRos
