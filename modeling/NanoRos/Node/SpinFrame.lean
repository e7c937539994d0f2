import NanoRos.Node.PassSteps

/-! What a step leaves alone: entries go but do not turn into others, and keep their context. -/

namespace NanoRos

open Function

namespace SpinExecutor

/-- The same entries or fewer, each under the context it had, and no more of them attributed. A
slot that is deferred now was deferred before, or is no timer; an entry that goes takes its deferral
with it. -/
structure Remains (s next : SpinExecutor) : Prop where
  attributed : ∀ i, next.entityAttributed.has i = true → s.entityAttributed.has i = true
  deferred : ∀ i, next.deferredMask.has i = true → s.deferredMask.has i = true ∨
    ∃ entry, s.entries i = some entry ∧ entry.body.isTimer = false
  entries : ∀ i after, next.entries i = some after → ∃ before, s.entries i = some before ∧
    after.body.isTimer = before.body.isTimer ∧
    (after.body.sampled = true → before.body.sampled = true)
  bindings : ∀ i after, next.entries i = some after → next.bindings i = s.bindings i
  vacant : ∀ i, next.deferredMask.has i = true → next.entries i = none → s.entries i = none

namespace Remains

variable {s mid next : SpinExecutor}

theorem of_same (attributed : next.entityAttributed = s.entityAttributed)
    (deferred : next.deferredMask = s.deferredMask) (entries : next.entries = s.entries)
    (bindings : next.bindings = s.bindings) : Remains s next where
  attributed _ had := attributed ▸ had
  deferred _ had := .inl (deferred ▸ had)
  entries _ entry present := ⟨entry, entries ▸ present, rfl, id⟩
  bindings i _ _ := congrFun bindings i
  vacant _ _ gone := entries ▸ gone

theorem refl (s : SpinExecutor) : Remains s s := of_same rfl rfl rfl rfl

theorem trans (first : Remains s mid) (second : Remains mid next) : Remains s next where
  attributed i had := first.attributed i (second.attributed i had)
  deferred i had := by
    rcases second.deferred i had with before | ⟨entry, present, handle⟩
    · exact first.deferred i before
    · rcases first.entries i entry present with ⟨before, was, kind, _⟩
      exact .inr ⟨before, was, kind ▸ handle⟩
  entries i after present := by
    rcases second.entries i after present with ⟨between, here, kind, sampled⟩
    rcases first.entries i between here with ⟨before, was, same, sampledBefore⟩
    exact ⟨before, was, kind.trans same, fun sample => sampledBefore (sampled sample)⟩
  bindings i after present := by
    rcases second.entries i after present with ⟨between, here, _⟩
    exact (second.bindings i after present).trans (first.bindings i between here)
  vacant i had gone := by
    have between := second.vacant i had gone
    rcases second.deferred i had with before | ⟨entry, present, _⟩
    · exact first.vacant i before between
    · cases present.symm.trans between

variable (s)

variable (i : Nat)

theorem setBody (body : EntryBody)
    (like : ∀ entry, s.entries i = some entry → body.isTimer = entry.body.isTimer ∧
      (body.sampled = true → entry.body.sampled = true)) : Remains s (s.setBody i body) where
  attributed _ had := had
  deferred _ had := .inl had
  entries j after present := by
    by_cases same : j = i
    · subst same
      change update s.entries j ((s.entries j).map _) j = some after at present
      rw [update_self] at present
      rcases Option.map_eq_some_iff.mp present with ⟨before, was, rfl⟩
      exact ⟨before, was, like before was⟩
    · change update s.entries i ((s.entries i).map _) j = some after at present
      rw [update_of_ne same] at present
      exact ⟨after, present, rfl, id⟩
  bindings _ _ _ := rfl
  vacant j _ gone := by
    by_cases same : j = i
    · subst same
      change update s.entries j ((s.entries j).map _) j = none at gone
      rw [update_self] at gone
      exact Option.map_eq_none_iff.mp gone
    · change update s.entries i ((s.entries i).map _) j = none at gone
      rw [update_of_ne same] at gone
      exact gone

theorem dropEntry : Remains s (s.dropEntry i) where
  attributed j had := by
    simp only [SpinExecutor.dropEntry, Mask.has_erase, Bool.and_eq_true] at had
    exact had.1
  deferred j had := by
    simp only [SpinExecutor.dropEntry, Mask.has_erase, Bool.and_eq_true] at had
    exact .inl had.1
  entries j after present := by
    by_cases same : j = i
    · subst same
      simp [SpinExecutor.dropEntry] at present
    · simp only [SpinExecutor.dropEntry, update_of_ne same] at present
      exact ⟨after, present, rfl, id⟩
  bindings j after present := by
    by_cases same : j = i
    · subst same
      simp [SpinExecutor.dropEntry] at present
    · simp [SpinExecutor.dropEntry, update_of_ne same]
  vacant j had gone := by
    simp only [SpinExecutor.dropEntry, Mask.has_erase, Bool.and_eq_true, Bool.not_eq_true',
      decide_eq_false_iff_not] at had
    simp only [SpinExecutor.dropEntry, update_of_ne (Ne.symm had.2)] at gone
    exact gone

theorem setTag (tag : SlotTag) : Remains s (s.setTag i tag) :=
  of_same rfl rfl rfl rfl

theorem setPass (p : Nat) (pass : Option SpinPass) :
    Remains s (s.setPass p pass) :=
  of_same rfl rfl rfl rfl

theorem setDeferredRun (d : Nat) (run : Option DeferredRun) :
    Remains s (s.setDeferredRun d run) :=
  of_same rfl rfl rfl rfl

theorem completeDeferredRelease :
    Remains s (s.completeDeferredRelease i) := by
  rw [SpinExecutor.completeDeferredRelease]
  split
  · exact dropEntry s i
  · exact refl s

theorem foldl_completeDeferredRelease (slots : List Nat) (s : SpinExecutor) :
    Remains s (slots.foldl SpinExecutor.completeDeferredRelease s) := by
  induction slots generalizing s with
  | nil => exact refl s
  | cons i slots ih => exact (completeDeferredRelease s i).trans (ih _)

theorem reapDeferredReleases : Remains s s.reapDeferredReleases :=
  foldl_completeDeferredRelease _ s

theorem releaseEntry : Remains s (s.releaseEntry i) := by
  rw [SpinExecutor.releaseEntry]
  split
  · exact setTag s i _
  · exact dropEntry s i

theorem setTimer (header after : TimerEntry)
    (present : (s.entries i).map CallbackMeta.body = some (.timer header)) :
    Remains s (s.setBody i (.timer after)) := by
  apply setBody
  intro entry found
  rw [found, Option.map_some] at present
  rw [Option.some.inj present]
  exact ⟨rfl, id⟩

theorem applyTimerOp (op : TimerOp) (clocks : ClockReadings) :
    Remains s (s.applyTimerOp i op clocks) := by
  rw [SpinExecutor.applyTimerOp]
  split
  case h_1 header present => exact setTimer s i header _ present
  case h_2 => exact refl s

theorem settleTimer : Remains s (s.settleTimer i) := by
  rw [SpinExecutor.settleTimer]
  split
  case h_1 header present => exact setTimer s i header _ present
  case h_2 => exact refl s

theorem finishDispatch (clocks : ClockReadings) :
    Remains s (s.finishDispatch i clocks) := by
  have applied : Remains s (s.applyDeferredTimerOp i clocks) := by
    rw [SpinExecutor.applyDeferredTimerOp]
    split
    · exact (setTag s i _).trans (applyTimerOp _ i _ clocks)
    · exact refl s
  exact (applied.trans (setTag _ i _)).trans (completeDeferredRelease _ i)

variable (cfg : SpinConfig)

theorem consumeDispatchRuntime (s : SpinExecutor) (i : Nat) (elapsedUs : UInt32)
    : Remains s (s.consumeDispatchRuntime cfg i elapsedUs) := by
  rw [SpinExecutor.consumeDispatchRuntime]
  split
  · exact .of_same rfl rfl rfl rfl
  · exact refl s

theorem beginScan (p : Nat) (band : SlotMask) (nowUs : Option Nat) (deltaUs : Nat)
    : Remains s (s.beginScan p band nowUs deltaUs) :=
  of_same rfl rfl rfl rfl

theorem returned (s : SpinExecutor) (running : Running) (clocks : ClockReadings) (work : PassWork)
    (elapsedUs : Option UInt32) :
    Remains s (s.returned cfg running clocks work elapsedUs) := by
  have settled : Remains s (if running.fired then s.settleTimer running.slot else s) := by
    split
    · exact settleTimer s running.slot
    · exact refl s
  simp only [SpinExecutor.returned]
  split
  · exact (settled.trans (consumeDispatchRuntime cfg _ running.slot _)).trans
      (finishDispatch _ running.slot clocks)
  · exact settled.trans (finishDispatch _ running.slot clocks)

theorem mergeMidPass (s : SpinExecutor) (band : SlotMask) (queue : List Nat) (settled : SlotMask)
    : Remains s (s.mergeMidPass cfg band queue settled).1 :=
  of_same rfl rfl rfl rfl

theorem afterPick (s : SpinExecutor) (p : Nat) (pass : SpinPass) :
    Remains s (s.afterPick cfg p pass) := by
  rw [SpinExecutor.afterPick]
  split
  case h_1 queue settled skipped _ =>
    split
    · exact (mergeMidPass cfg s pass.band queue settled).trans (setPass _ p _)
    · exact setPass s p _
  case h_2 => exact setPass s p _

theorem begin_like (body : EntryBody) (clocks : ClockReadings) (deltaUs : Nat) (took : Bool) :
    (body.begin clocks deltaUs took).1.isTimer = body.isTimer ∧
      (body.begin clocks deltaUs took).1.sampled = false := by
  cases body with
  | timer header => exact ⟨rfl, rfl⟩
  | handle entry =>
    simp only [EntryBody.begin]
    split
    case isTrue => exact ⟨rfl, rfl⟩
    case isFalse unsampled =>
      rw [Bool.not_eq_true] at unsampled
      split
      · exact ⟨rfl, unsampled⟩
      · exact ⟨rfl, unsampled⟩

theorem setBegun (entry : CallbackMeta) (present : s.entries i = some entry)
    (clocks : ClockReadings) (deltaUs : Nat) (took : Bool) :
    Remains s (s.setBody i (entry.body.begin clocks deltaUs took).1) := by
  apply setBody
  intro again found
  rw [present] at found
  cases found
  have like := begin_like entry.body clocks deltaUs took
  refine ⟨like.1, fun sampled => ?_⟩
  rw [like.2] at sampled
  cases sampled

theorem startDispatch (p : Nat) (pass : SpinPass) (i : Nat) (entry : CallbackMeta)
    (present : s.entries i = some entry) (clocks : ClockReadings) (took : Bool) :
    Remains s (s.startDispatch p pass i entry.body clocks took) :=
  ((setBegun s i entry present clocks pass.deltaUs took).trans (setTag _ i _)).trans
    (setPass _ p _)

theorem sweepNext (p : Nat) (pass : SpinPass) (i : Nat) (clocks : ClockReadings) :
    Remains s (s.sweepNext p pass i clocks) := by
  simp only [SpinExecutor.sweepNext]
  split
  case h_1 entry present =>
    split
    · exact startDispatch s p _ i entry present clocks false
    · exact setPass s p _
  case h_2 => exact setPass s p _

theorem pick (s : SpinExecutor) (p : Nat) (pass : SpinPass) (queue : List Nat)
    (settled skipped : SlotMask) (i : Nat) (clocks : ClockReadings) (took : Bool) :
    Remains s (s.pick cfg p pass queue settled skipped i clocks took) := by
  simp only [SpinExecutor.pick]
  split
  · exact setPass s p _
  · split
    case h_1 entry present =>
      split
      · exact afterPick cfg s p _
      · exact startDispatch s p _ i entry present clocks took
    case h_2 => exact afterPick cfg s p _

theorem dispatchDeferredSlot (d : Nat) (rest : SlotMask) (i : Nat) (clocks : ClockReadings)
    (took : Bool) :
    Remains s (s.dispatchDeferredSlot d rest i clocks took) := by
  have cleared : Remains s { s with deferredPending := s.deferredPending.erase i } :=
    of_same rfl rfl rfl rfl
  simp only [SpinExecutor.dispatchDeferredSlot]
  split
  · exact setDeferredRun s d _
  · split
    case h_1 entry present =>
      have begun := setBegun s i entry present clocks 0 took
      exact ⟨begun.attributed, begun.deferred, begun.entries, begun.bindings, begun.vacant⟩
    case h_2 => exact cleared.trans (setDeferredRun _ d _)

theorem deferredReturn (d : Nat) (rest : SlotMask) (i : Nat) (clocks : ClockReadings)
    : Remains s (s.deferredReturn d rest i clocks) := by
  have finished := finishDispatch s i clocks
  exact ⟨finished.attributed, finished.deferred, finished.entries, finished.bindings,
        finished.vacant⟩

theorem setDeferred (deferred : Bool) :
    Remains s (s.setDeferred i deferred) := by
  rw [SpinExecutor.setDeferred]
  split
  case isTrue => exact refl s
  case isFalse able =>
    rw [Bool.not_eq_true, Bool.or_eq_false_iff] at able
    split
    · refine ⟨fun _ had => had, fun j had => ?_,
        fun _ entry present => ⟨entry, present, rfl, id⟩, fun _ _ _ => rfl,
        fun _ _ gone => gone⟩
      by_cases same : i = j
      · subst same
        cases present : s.entries i with
        | none => simp [SpinExecutor.resolves, present] at able
        | some entry => exact .inr ⟨entry, rfl, by simpa [present] using able.2⟩
      · exact .inl (by simpa [same] using had)
    · refine ⟨fun _ had => had, fun j had => .inl ?_,
        fun _ entry present => ⟨entry, present, rfl, id⟩, fun _ _ _ => rfl,
        fun _ _ gone => gone⟩
      rw [Mask.has_erase, Bool.and_eq_true] at had
      exact had.1

theorem enqueue : Remains s (s.enqueue i) := by
  rw [SpinExecutor.enqueue]
  split
  case h_1 entry present =>
    have grown := setBody s i (.handle { entry with waiting := entry.waiting + 1 }) (by
      intro found here
      rw [here, Option.map_some] at present
      rw [Option.some.inj present]
      exact ⟨rfl, id⟩)
    exact ⟨grown.attributed, grown.deferred, grown.entries, grown.bindings, grown.vacant⟩
  case h_2 => exact refl s

variable {s}

end Remains

end SpinExecutor

/-- The steps that make something new of a slot. -/
def SpinEvent.reshapes : SpinEvent → Bool
  | .register _ _ _ _ | .bind _ _ | .evaluate _ => true
  | _ => false

theorem SpinStep.remains {cfg : SpinConfig} {s next : SpinExecutor} {e : SpinEvent}
    (stepped : SpinStep cfg s e next) (plain : e.reshapes = false) : s.Remains next := by
  open SpinExecutor in
  cases stepped with
  | enqueue i => exact Remains.enqueue s i
  | announce i | refillTick | scanNext scan =>
    exact .of_same rfl rfl rfl rfl
  | evaluate => cases plain
  | yield => exact Remains.reapDeferredReleases s
  | spin p band nowUs deltaUs =>
    exact (Remains.reapDeferredReleases s).trans (Remains.beginScan _ p band nowUs deltaUs)
  | sweepNext p i pass clocks => exact Remains.sweepNext s p pass i clocks
  | pick p i pass queue settled skipped clocks took =>
    exact Remains.pick cfg s p pass queue settled skipped i clocks took
  | callbackReturn p pass running clocks elapsedUs =>
    rw [SpinExecutor.callbackReturn_eq]
    exact (Remains.returned cfg s running clocks pass.work elapsedUs).trans
      (Remains.afterPick cfg _ p _)
  | finish p => exact Remains.setPass s p none
  | setDeferred i deferred => exact Remains.setDeferred s i deferred
  | runDeferred d rest | runDeferredHandle d i rest =>
    exact (Remains.reapDeferredReleases s).trans (Remains.setDeferredRun _ d _)
  | deferredPick d i run clocks took => exact Remains.dispatchDeferredSlot s d _ i clocks took
  | deferredReturn d i run clocks => exact Remains.deferredReturn s d _ i clocks
  | deferredFinish d => exact Remains.setDeferredRun s d none
  | release i => exact Remains.releaseEntry s i
  | register => cases plain
  | bind => cases plain
  | deferTimerOp i => exact Remains.setTag s i _
  | timerOp i op elsewhere clocks => exact Remains.applyTimerOp s i op clocks

end NanoRos
