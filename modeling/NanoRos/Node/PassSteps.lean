import NanoRos.Node.SpinSteps

/-! What the steps of the executor do to its passes: each step belongs to one pass at most, and a
pass goes on in one of a few ways. -/

namespace NanoRos

def SpinEvent.actor (s : SpinExecutor) : SpinEvent → Option Nat
  | .evaluate _ => s.scan.map Scan.pass
  | .sweepNext p _ | .pick p _ _ _ | .callbackReturn p _ _ | .finish p => some p
  | _ => none

namespace SpinExecutor

variable (cfg : SpinConfig) (s : SpinExecutor)

variable {p other : Nat}

theorem passes_setPass_of_ne (apart : other ≠ p) (pass : Option SpinPass) :
    (s.setPass p pass).passes other = s.passes other :=
  Function.update_of_ne apart _ _

theorem passes_setPass (p : Nat) (pass : Option SpinPass) : (s.setPass p pass).passes p = pass :=
  Function.update_self p _ _

section

variable (apart : other ≠ p)
include apart

variable (pass : SpinPass)

theorem passes_afterPick_of_ne : (s.afterPick cfg p pass).passes other = s.passes other := by
  rw [afterPick]
  split
  case h_1 queue settled skipped _ =>
    split
    · exact (passes_setPass_of_ne _ apart _).trans rfl
    · exact passes_setPass_of_ne s apart _
  case h_2 => exact passes_setPass_of_ne s apart _

theorem passes_startDispatch_of_ne (i : Nat) (body : EntryBody) (clocks : ClockReadings)
    (took : Bool) : (s.startDispatch p pass i body clocks took).passes other = s.passes other :=
  passes_setPass_of_ne _ apart _

theorem passes_sweepNext_of_ne (i : Nat) (clocks : ClockReadings)
    : (s.sweepNext p pass i clocks).passes other = s.passes other := by
  simp only [sweepNext]
  split
  · split
    · exact passes_startDispatch_of_ne s apart _ i _ clocks false
    · exact passes_setPass_of_ne s apart _
  · exact passes_setPass_of_ne s apart _

theorem passes_pick_of_ne (queue : List Nat) (settled skipped : SlotMask) (i : Nat)
    (clocks : ClockReadings) (took : Bool) :
    (s.pick cfg p pass queue settled skipped i clocks took).passes other = s.passes other := by
  simp only [pick]
  split
  · exact passes_setPass_of_ne s apart _
  · split
    · split
      · exact passes_afterPick_of_ne cfg s apart _
      · exact passes_startDispatch_of_ne s apart _ i _ clocks took
    · exact passes_afterPick_of_ne cfg s apart _

end

/-- The executor when a callback is back, before the pass goes on. -/
def returned (running : Running) (clocks : ClockReadings) (work : PassWork)
    (elapsedUs : Option UInt32) : SpinExecutor :=
  let settled := if running.fired then s.settleTimer running.slot else s
  match work, elapsedUs with
  | .drain _ _ _, some elapsed =>
    (settled.consumeDispatchRuntime cfg running.slot elapsed).finishDispatch running.slot clocks
  | _, _ => settled.finishDispatch running.slot clocks

/-- The pass when a callback is back: the context may have missed its deadline. -/
def resumed (pass : SpinPass) (running : Running) (elapsedUs : Option UInt32) : SpinPass :=
  match pass.work, elapsedUs with
  | .drain queue settled skipped, some elapsed =>
    let skipped := if cfg.contains running.context elapsed then skipped.insert running.context
      else skipped
    { pass with running := none, work := .drain queue settled skipped }
  | _, _ => { pass with running := none }

theorem callbackReturn_eq (p : Nat) (pass : SpinPass) (running : Running) (clocks : ClockReadings)
    (elapsedUs : Option UInt32) :
    s.callbackReturn cfg p pass running clocks elapsedUs =
      (s.returned cfg running clocks pass.work elapsedUs).afterPick cfg p
        (resumed cfg pass running elapsedUs) := by
  simp only [callbackReturn, returned, resumed]
  cases pass.work with
  | sweep next => rfl
  | drain queue settled skipped =>
    cases elapsedUs with
    | none => rfl
    | some elapsed => rfl

theorem sameWork_returned (running : Running) (clocks : ClockReadings) (work : PassWork)
    (elapsedUs : Option UInt32) : SameWork s (s.returned cfg running clocks work elapsedUs) := by
  have settled : SameWork s (if running.fired then s.settleTimer running.slot else s) := by
    split
    · exact SameWork.settleTimer s running.slot
    · exact ⟨rfl, rfl, rfl⟩
  simp only [returned]
  split
  · exact (settled.trans (SameWork.consumeDispatchRuntime cfg _ running.slot _)).trans
      (SameWork.finishDispatch _ running.slot clocks)
  · exact settled.trans (SameWork.finishDispatch _ running.slot clocks)

theorem passes_beginScan (p : Nat) (band : SlotMask) (nowUs : Option Nat) (deltaUs : Nat) :
    (s.beginScan p band nowUs deltaUs).passes = s.passes := rfl

theorem passes_setDeferredRun (d : Nat) (run : Option DeferredRun) :
    (s.setDeferredRun d run).passes = s.passes := rfl

theorem prepared_cases (scan : Scan) : (cfg.semantics = .logicalExecutionTime ∧
        s.prepared cfg scan = (s.preSample scan.band).refillSporadic scan.nowUs) ∨
      (cfg.semantics ≠ .logicalExecutionTime ∧
        s.prepared cfg scan = s.refillSporadic scan.nowUs) := by
  by_cases sampling : cfg.semantics = .logicalExecutionTime
  · exact .inl ⟨sampling, by simp only [prepared, if_pos sampling]⟩
  · exact .inr ⟨sampling, by simp only [prepared, if_neg sampling]⟩

theorem refillSporadic_frame (nowUs : Option Nat) :
    (s.refillSporadic nowUs).entries = s.entries ∧ (s.refillSporadic nowUs).tags = s.tags ∧
      (s.refillSporadic nowUs).bindings = s.bindings ∧
      (s.refillSporadic nowUs).entityAttributed = s.entityAttributed ∧
      (s.refillSporadic nowUs).passes = s.passes := by
  cases nowUs with
  | some now | none => exact ⟨rfl, rfl, rfl, rfl, rfl⟩

theorem prepared_frame (scan : Scan) :
    (s.prepared cfg scan).bindings = s.bindings ∧ (s.prepared cfg scan).tags = s.tags ∧
      (s.prepared cfg scan).entityAttributed = s.entityAttributed ∧
      (s.prepared cfg scan).passes = s.passes := by
  rcases s.prepared_cases cfg scan with ⟨_, same⟩ | ⟨_, same⟩
  · have frame := (s.preSample scan.band).refillSporadic_frame scan.nowUs
    rw [same]
    exact ⟨frame.2.2.1, frame.2.1, frame.2.2.2.1, frame.2.2.2.2⟩
  · have frame := s.refillSporadic_frame scan.nowUs
    rw [same]
    exact ⟨frame.2.2.1, frame.2.1, frame.2.2.2.1, frame.2.2.2.2⟩

theorem hasBudget_prepared (scan : Scan) : ((s.endScan scan).prepared cfg scan).hasBudget =
      (s.refillSporadic scan.nowUs).hasBudget := by
  rcases (s.endScan scan).prepared_cases cfg scan with ⟨_, same⟩ | ⟨_, same⟩
  · rw [same]
    cases scan.nowUs with
    | some now => rfl
    | none => rfl
  · rw [same]
    cases scan.nowUs with
    | some now => rfl
    | none => rfl

theorem passes_startDrain_of_ne {scan : Scan} (apart : other ≠ scan.pass) (active : SlotMask)
    (clocks : ClockReadings) :
    (s.startDrain cfg scan active clocks).passes other = s.passes other :=
  (passes_setPass_of_ne _ apart _).trans (congrFun (prepared_frame cfg s scan).2.2.2 other)

theorem passes_evaluate_of_ne {scan : Scan} (apart : other ≠ scan.pass) (clocks : ClockReadings) :
    (s.evaluate cfg scan clocks).passes other = s.passes other := by
  rw [evaluate]
  split
  · exact passes_startDrain_of_ne cfg _ apart _ clocks
  · exact passes_setPass_of_ne _ apart _

theorem passes_dispatchDeferredSlot (d : Nat) (rest : SlotMask) (i : Nat)
    (clocks : ClockReadings) (took : Bool) :
    (s.dispatchDeferredSlot d rest i clocks took).passes = s.passes := by
  simp only [dispatchDeferredSlot]
  split
  · rfl
  · split
    · rfl
    · rfl

end SpinExecutor

variable {cfg : SpinConfig} {s next : SpinExecutor} {e : SpinEvent} {p : Nat}

theorem SpinStep.passes_of_ne (stepped : SpinStep cfg s e next) (other : e.actor s ≠ some p) :
    next.passes p = s.passes p := by
  open SpinExecutor in
  cases stepped with
  | enqueue i => rw [(SameWork.enqueue s i).passes]
  | evaluate scan locked all clocks =>
    apply passes_evaluate_of_ne cfg s
    rintro rfl
    exact other (by rw [SpinEvent.actor, locked]; rfl)
  | yield => rw [(SameWork.reapDeferredReleases s).passes]
  | spin p' band nowUs deltaUs =>
    rw [passes_beginScan, (SameWork.reapDeferredReleases s).passes]
  | sweepNext q i pass clocks free here idle work more =>
    exact passes_sweepNext_of_ne s (fun same => other (congrArg some same.symm)) pass i clocks
  | pick q i pass queue settled skipped clocks took free here idle work queued =>
    exact passes_pick_of_ne cfg s (fun same => other (congrArg some same.symm)) pass queue
      settled skipped i clocks took
  | callbackReturn q pass running clocks elapsedUs free here busy =>
    rw [callbackReturn_eq, passes_afterPick_of_ne cfg _
      (fun same => other (congrArg some same.symm)), (sameWork_returned cfg s _ _ _ _).passes]
  | finish q pass free here ended =>
    exact passes_setPass_of_ne s (fun same => other (congrArg some same.symm)) none
  | setDeferred i deferred => rw [(SameWork.setDeferred s i deferred).passes]
  | runDeferred
  | runDeferredHandle => rw [passes_setDeferredRun, (SameWork.reapDeferredReleases s).passes]
  | deferredPick d i run clocks took => rw [passes_dispatchDeferredSlot]
  | deferredReturn d i run clocks =>
    exact congrFun (SameWork.finishDispatch s i clocks).passes p
  | release i => rw [(SameWork.releaseEntry s i).passes]
  | timerOp i op elsewhere clocks => rw [(SameWork.applyTimerOp s i op clocks).passes]
  | _ => rfl

namespace SpinExecutor

/-- The pass has come to a slot of the sweep and goes on behind it. -/
def sweptPast (s : SpinExecutor) (pass : SpinPass) (i : Nat) : SpinPass :=
  { s.excuse pass i with work := .sweep (i + 1) }

/-- The pass has taken a slot from its queue. -/
def pickedFrom (s : SpinExecutor) (pass : SpinPass) (queue : List Nat) (settled skipped : SlotMask)
    (i : Nat) : SpinPass :=
  { s.excuse pass i with work := .drain (queue.erase i) settled skipped }

end SpinExecutor

/-- How a pass can begin. -/
inductive PassStart (cfg : SpinConfig) (s : SpinExecutor) : Nat → SpinPass → Prop
  | drain (scan : Scan) (clocks : ClockReadings) (locked : s.scan = some scan)
      (all : 64 ≤ scan.next) (passes : s.triggerPasses cfg scan = true) :
      PassStart cfg s scan.pass
        (((s.endScan scan).prepared cfg scan).drainPass cfg scan (s.activeSlots scan) clocks)
  | sweep (scan : Scan) (locked : s.scan = some scan) (all : 64 ≤ scan.next)
      (fails : s.triggerPasses cfg scan = false) :
      PassStart cfg s scan.pass ((s.endScan scan).sweepPass scan)

/-- How a pass can go on. -/
inductive PassStep (cfg : SpinConfig) (s : SpinExecutor) : SpinEvent → SpinPass → SpinPass → Prop
  | sweepPast (p i : Nat) (pass : SpinPass) (clocks : ClockReadings) (work : pass.work = .sweep i)
      (untimed : ∀ entry, s.entries i = some entry →
        (entry.body.isTimer && pass.band.has i && !s.held i) = false) :
      PassStep cfg s (.sweepNext p clocks) pass (s.sweptPast pass i)
  | sweepDispatch (p i : Nat) (pass : SpinPass) (clocks : ClockReadings) (entry : CallbackMeta)
      (work : pass.work = .sweep i) (present : s.entries i = some entry)
      (timer : entry.body.isTimer = true) (unheld : s.held i = false) :
      PassStep cfg s (.sweepNext p clocks) pass
        (s.dispatching (s.sweptPast pass i) i entry.body clocks false)
  | contained (p i : Nat) (pass : SpinPass) (queue : List Nat) (settled skipped : SlotMask)
      (clocks : ClockReadings) (took : Bool) (work : pass.work = .drain queue settled skipped)
      (queued : i ∈ queue) (contained : skipped.has (s.bindings i) = true) :
      PassStep cfg s (.pick p i clocks took) pass (s.pickedFrom pass queue settled skipped i)
  | pickPast (p i : Nat) (pass : SpinPass) (queue : List Nat) (settled skipped : SlotMask)
      (clocks : ClockReadings) (took : Bool) (work : pass.work = .drain queue settled skipped)
      (queued : i ∈ queue) (away : s.entries i = none ∨ s.held i = true) :
      PassStep cfg s (.pick p i clocks took) pass
        (s.merged cfg (s.pickedFrom pass queue settled skipped i))
  | pickDispatch (p i : Nat) (pass : SpinPass) (queue : List Nat) (settled skipped : SlotMask)
      (clocks : ClockReadings) (took : Bool) (entry : CallbackMeta)
      (work : pass.work = .drain queue settled skipped) (queued : i ∈ queue)
      (present : s.entries i = some entry) (unheld : s.held i = false) :
      PassStep cfg s (.pick p i clocks took) pass
        (s.dispatching (s.pickedFrom pass queue settled skipped i) i entry.body clocks took)
  | returned (p : Nat) (pass : SpinPass) (running : Running) (clocks : ClockReadings)
      (elapsedUs : Option UInt32) (busy : pass.running = some running) :
      PassStep cfg s (.callbackReturn p clocks elapsedUs) pass
        ((s.returned cfg running clocks pass.work elapsedUs).merged cfg
          (SpinExecutor.resumed cfg pass running elapsedUs))

namespace SpinExecutor

variable (cfg : SpinConfig) (s : SpinExecutor)

theorem passes_afterPick (p : Nat) (pass : SpinPass) :
    (s.afterPick cfg p pass).passes p = some (s.merged cfg pass) := by
  rw [afterPick]
  split
  case h_1 queue settled skipped work =>
    split
    case isTrue => exact passes_setPass _ p _
    case isFalse once =>
      rw [passes_setPass, merged]
      simp only [work, once, Bool.false_eq_true, if_false]
  case h_2 next work =>
    rw [passes_setPass, merged]
    simp only [work]

theorem passes_startDispatch (p : Nat) (pass : SpinPass) (i : Nat) (body : EntryBody)
    (clocks : ClockReadings) (took : Bool) : (s.startDispatch p pass i body clocks took).passes p =
      some (s.dispatching pass i body clocks took) :=
  passes_setPass _ p _

variable {after : SpinPass} {clocks : ClockReadings}

theorem pass_of_sweepNext {p i : Nat} {pass : SpinPass} (work : pass.work = .sweep i)
    (found : (s.sweepNext p pass i clocks).passes p = some after) :
    PassStep cfg s (.sweepNext p clocks) pass after := by
  simp only [sweepNext] at found
  split at found
  case h_1 entry present =>
    split at found
    case isTrue swept =>
      rw [passes_startDispatch] at found
      cases found
      simp only [Bool.and_eq_true, Bool.not_eq_true'] at swept
      exact .sweepDispatch p i pass clocks entry work present swept.1.1 swept.2
    case isFalse past =>
      rw [passes_setPass] at found
      cases found
      refine .sweepPast p i pass clocks work fun again here => ?_
      rw [present] at here
      cases here
      exact Bool.not_eq_true _ ▸ past
  case h_2 vacant =>
    rw [passes_setPass] at found
    cases found
    refine .sweepPast p i pass clocks work fun again here => ?_
    rw [vacant] at here
    cases here

theorem pass_of_pick {p i : Nat} {pass : SpinPass} {queue : List Nat} {settled skipped : SlotMask}
    {took : Bool} (work : pass.work = .drain queue settled skipped) (queued : i ∈ queue)
    (found : (s.pick cfg p pass queue settled skipped i clocks took).passes p = some after) :
    PassStep cfg s (.pick p i clocks took) pass after := by
  simp only [pick] at found
  split at found
  case isTrue within =>
    rw [passes_setPass] at found
    cases found
    exact .contained p i pass queue settled skipped clocks took work queued within
  case isFalse =>
    split at found
    case h_1 entry present =>
      split at found
      case isTrue held =>
        rw [passes_afterPick] at found
        cases found
        exact .pickPast p i pass queue settled skipped clocks took work queued (.inr held)
      case isFalse unheld =>
        rw [passes_startDispatch] at found
        cases found
        exact .pickDispatch p i pass queue settled skipped clocks took entry work queued present
          (Bool.not_eq_true _ ▸ unheld)
    case h_2 vacant =>
      rw [passes_afterPick] at found
      cases found
      exact .pickPast p i pass queue settled skipped clocks took work queued (.inl vacant)

theorem pass_of_evaluate {scan : Scan} (locked : s.scan = some scan) (all : 64 ≤ scan.next)
    (found : (s.evaluate cfg scan clocks).passes scan.pass = some after) :
    PassStart cfg s scan.pass after := by
  rw [evaluate] at found
  split at found
  case isTrue passed =>
    rw [startDrain, passes_setPass] at found
    cases found
    exact .drain scan clocks locked all passed
  case isFalse failed =>
    rw [startSweep, passes_setPass] at found
    cases found
    exact .sweep scan locked all (Bool.not_eq_true _ ▸ failed)

theorem passes_sweepNext_ne_none (p : Nat) (pass : SpinPass) (i : Nat) (clocks : ClockReadings) :
    (s.sweepNext p pass i clocks).passes p ≠ none := by
  simp only [sweepNext]
  repeat' split
  all_goals simp only [passes_startDispatch, passes_setPass, ne_eq, reduceCtorEq, not_false_eq_true]

theorem passes_pick_ne_none (p : Nat) (pass : SpinPass) (queue : List Nat)
    (settled skipped : SlotMask) (i : Nat) (clocks : ClockReadings) (took : Bool) :
    (s.pick cfg p pass queue settled skipped i clocks took).passes p ≠ none := by
  simp only [pick]
  repeat' split
  all_goals simp only [passes_startDispatch, passes_setPass, passes_afterPick, ne_eq, reduceCtorEq,
    not_false_eq_true]

end SpinExecutor

theorem SpinStep.done_of_gone (stepped : SpinStep cfg s e next) {pass : SpinPass}
    (here : s.passes p = some pass) (gone : next.passes p = none) : pass.done = true := by
  by_cases acts : e.actor s = some p
  · cases stepped with
    | evaluate scan locked all clocks =>
      rw [SpinEvent.actor, locked] at acts
      cases acts
      rw [SpinExecutor.evaluate] at gone
      split at gone
      · rw [SpinExecutor.startDrain, SpinExecutor.passes_setPass] at gone
        cases gone
      · rw [SpinExecutor.startSweep, SpinExecutor.passes_setPass] at gone
        cases gone
    | sweepNext q i pass clocks =>
      cases acts
      exact absurd gone (s.passes_sweepNext_ne_none p pass i clocks)
    | pick q i pass queue settled skipped clocks took =>
      cases acts
      exact absurd gone (s.passes_pick_ne_none cfg p pass queue settled skipped i clocks took)
    | callbackReturn q pass running clocks elapsedUs =>
      cases acts
      rw [SpinExecutor.callbackReturn_eq, SpinExecutor.passes_afterPick] at gone
      cases gone
    | finish q ended free found finished =>
      cases acts
      rw [here] at found
      cases found
      exact finished
    | _ => cases acts
  · rw [stepped.passes_of_ne acts, here] at gone
    cases gone

theorem SpinStep.pass_cases (stepped : SpinStep cfg s e next) {after : SpinPass}
    (found : next.passes p = some after) :
    s.passes p = some after ∨ PassStart cfg s p after ∨
      ∃ pass, s.passes p = some pass ∧ PassStep cfg s e pass after := by
  by_cases acts : e.actor s = some p
  · cases stepped with
    | evaluate scan locked all clocks =>
      rw [SpinEvent.actor, locked] at acts
      cases acts
      exact .inr (.inl (SpinExecutor.pass_of_evaluate cfg s locked all found))
    | sweepNext q i pass clocks free here idle work more =>
      cases acts
      exact .inr (.inr ⟨pass, here, SpinExecutor.pass_of_sweepNext cfg s work found⟩)
    | pick q i pass queue settled skipped clocks took free here idle work queued =>
      cases acts
      exact .inr (.inr ⟨pass, here, SpinExecutor.pass_of_pick cfg s work queued found⟩)
    | callbackReturn q pass running clocks elapsedUs free here busy =>
      cases acts
      rw [SpinExecutor.callbackReturn_eq, SpinExecutor.passes_afterPick] at found
      cases found
      exact .inr (.inr ⟨pass, here, .returned p pass running clocks elapsedUs busy⟩)
    | finish q pass free here ended =>
      cases acts
      rw [SpinExecutor.passes_setPass] at found
      cases found
    | _ => cases acts
  · exact .inl (stepped.passes_of_ne acts ▸ found)

namespace SpinExecutor

variable (cfg : SpinConfig) (s : SpinExecutor)

theorem mergeMidPass_joins (band : SlotMask) (queue : List Nat) (settled : SlotMask) :
    ∃ joins : Nat → Bool, (s.mergeMidPass cfg band queue settled).2 =
        (queue ++ (List.range 64).filter joins, settled ||| Mask.collect 64 joins) ∧
      ∀ i, joins i = true → settled.has i = false ∧ cfg.classOf (s.bindings i) ≠ .sporadic ∧
        cfg.windowed (s.bindings i) = false := by
  refine ⟨_, rfl, ?_⟩
  intro i joined
  simp only [Bool.and_eq_true, Mask.has_diff, Mask.has_or, Mask.has_and, Bool.or_eq_true,
    Mask.has_collect, Bool.not_eq_true', decide_eq_false_iff_not] at joined
  refine ⟨?_, joined.1.2, joined.2⟩
  rcases joined.1.1.1.1.1 with fresh | probed
  · exact fresh.2
  · have unseen := probed.2.1.1.1.2
    simp only [Bool.or_eq_false_iff] at unseen
    exact unseen.1.1

variable (pass : SpinPass)

theorem excuse_log (i : Nat) : (s.excuse pass i).log.dispatched = pass.log.dispatched ∧
      (s.excuse pass i).log.ran = pass.log.ran ∧ (s.excuse pass i).log.credits = pass.log.credits ∧
      (s.excuse pass i).log.hadBudget = pass.log.hadBudget := by
  rw [excuse]
  split
  · exact ⟨rfl, rfl, rfl, rfl⟩
  · exact ⟨rfl, rfl, rfl, rfl⟩

theorem excuse_frame (i : Nat) :
    (s.excuse pass i).band = pass.band ∧ (s.excuse pass i).nowUs = pass.nowUs ∧
      (s.excuse pass i).deltaUs = pass.deltaUs ∧ (s.excuse pass i).work = pass.work := by
  rw [excuse]
  split
  · exact ⟨rfl, rfl, rfl, rfl⟩
  · exact ⟨rfl, rfl, rfl, rfl⟩

theorem merged_cases :
    s.merged cfg pass = pass ∨ ∃ queue settled skipped joins,
      pass.work = .drain queue settled skipped ∧ s.merged cfg pass = { pass with
        work := .drain (queue ++ (List.range 64).filter joins)
          (settled ||| Mask.collect 64 joins) skipped } ∧
      ∀ i, joins i = true → settled.has i = false ∧ cfg.classOf (s.bindings i) ≠ .sporadic ∧
        cfg.windowed (s.bindings i) = false := by
  rw [merged]
  split
  case h_1 queue settled skipped work =>
    split
    case isTrue =>
      rcases mergeMidPass_joins cfg s pass.band queue settled with ⟨joins, same, fresh⟩
      refine .inr ⟨queue, settled, skipped, joins, work, ?_, fresh⟩
      simp only [same]
    case isFalse => exact .inl rfl
  case h_2 => exact .inl rfl

theorem resumed_cases (running : Running) (elapsedUs : Option UInt32) :
    resumed cfg pass running elapsedUs = { pass with running := none } ∨
      ∃ queue settled skipped more, pass.work = .drain queue settled skipped ∧
        resumed cfg pass running elapsedUs =
          { pass with running := none, work := .drain queue settled more } := by
  unfold resumed
  split
  case h_1 queue settled skipped elapsed work =>
    exact .inr ⟨queue, settled, skipped, _, work, rfl⟩
  case h_2 => exact .inl rfl

end SpinExecutor

end NanoRos
