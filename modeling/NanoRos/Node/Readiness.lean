import NanoRos.Node.SpinSteps

/-! Where the readiness of an attributed slot is kept. -/

namespace NanoRos

open Function

namespace SpinExecutor

/-- The slot holds an item whose arrival is complete: its backend has announced it. -/
def Waits (s : SpinExecutor) (i : Nat) : Prop :=
  s.entityAttributed.has i = true ∧
    ∃ entry, s.entries i = some entry ∧ s.announcing i < entry.body.waiting

/-- A drain runs the slot's callback, and will ask for a recheck when it returns. -/
def InDeferred (s : SpinExecutor) (i : Nat) : Prop :=
  ∃ d run, s.deferredRuns d = some run ∧ run.running = some i

def Marked (s : SpinExecutor) (i : Nat) : Prop :=
  s.ready.has i = true ∨ s.entityRecheck.has i = true ∨
    (s.deferredMask.has i = true ∧ s.deferredPending.has i = true) ∨ s.InDeferred i

end SpinExecutor

/-- The scan has the slot's readiness: in the words it took, before it comes to the slot, and in
the masks it fills, after. -/
def Scan.Holds (scan : Scan) (i : Nat) : Prop :=
  scan.band.has i = true ∧
    if i < scan.next then scan.bits.has i = true ∨ scan.carry.has i = true
    else scan.arrived.has i = true ∨ scan.recheck.has i = true

/-- Nothing is lost, and no scan is under way. -/
structure Unlocked (s : SpinExecutor) : Prop where
  free : s.scan = none
  marked : ∀ i, s.Waits i → s.Marked i

/-- Nothing is lost in the middle of a scan; it goes by a name that no pass has. -/
structure Locked (s : SpinExecutor) (scan : Scan) : Prop where
  locked : s.scan = some scan
  vacant : s.passes scan.pass = none
  attributed : scan.attributed = s.entityAttributed
  marked : ∀ i, s.Waits i → s.Marked i ∨ scan.Holds i

def Kept (s : SpinExecutor) : Prop := Unlocked s ∨ ∃ scan, Locked s scan

variable (body : EntryBody)

theorem EntryBody.waiting_begin_le (clocks : ClockReadings) (deltaUs : Nat) (took : Bool)
    : (body.begin clocks deltaUs took).1.waiting ≤ body.waiting := by
  cases body with
  | timer header => exact Nat.zero_le _
  | handle entry =>
    simp only [EntryBody.begin]
    split
    · exact Nat.le_refl _
    · split
      · exact Nat.sub_le _ _
      · exact Nat.le_refl _

theorem EntryBody.waiting_preSample_le :
    body.preSample.waiting ≤ body.waiting := by
  cases body with
  | timer header => exact Nat.zero_le _
  | handle entry =>
    simp only [EntryBody.preSample]
    split
    · exact Nat.sub_le _ _
    · exact Nat.le_refl _

theorem EntryBody.waiting_skip_le (clocks : ClockReadings) (deltaUs : Nat) :
    (body.skip clocks deltaUs).waiting ≤ body.waiting := by
  cases body with
  | timer header => exact Nat.zero_le _
  | handle entry => exact Nat.le_refl _

theorem EntryBody.hasData_of_waiting (holds : 0 < body.waiting) :
    body.hasData = true := by
  cases body with
  | timer header => rfl
  | handle entry =>
    have waits : 0 < entry.waiting := holds
    simp [EntryBody.hasData, waits]

namespace Unlocked

variable {s next : SpinExecutor}

section

variable (kept : Unlocked s)
include kept

theorem mono (free : next.scan = none) (waits : ∀ i, next.Waits i → s.Waits i)
    (marks : ∀ i, next.Waits i → s.Marked i → next.Marked i) : Unlocked next where
  free := free
  marked i wanted := marks i wanted (kept.marked i (waits i wanted))

theorem withEntries (entries : Nat → Option CallbackMeta)
    (fewer : ∀ i after, entries i = some after →
      ∃ before, s.entries i = some before ∧ after.body.waiting ≤ before.body.waiting) :
    Unlocked { s with entries := entries } := by
  apply kept.mono
  · exact kept.free
  · rintro i ⟨attributed, after, present, more⟩
    rcases fewer i after present with ⟨before, was, less⟩
    exact ⟨attributed, before, was, Nat.lt_of_lt_of_le more less⟩
  · intro i _ marked
    exact marked

theorem setBody (i : Nat) (body : EntryBody)
    (fewer : ∀ entry, s.entries i = some entry → body.waiting ≤ entry.body.waiting) :
    Unlocked (s.setBody i body) := by
  apply kept.withEntries
  intro j after present
  by_cases same : j = i
  · subst same
    rw [update_self] at present
    rcases Option.map_eq_some_iff.mp present with ⟨before, was, rfl⟩
    exact ⟨before, was, fewer before was⟩
  · rw [update_of_ne same] at present
    exact ⟨after, present, Nat.le_refl _⟩

theorem dropEntry (i : Nat) : Unlocked (s.dropEntry i) := by
  have other : ∀ j, (s.dropEntry i).Waits j → i ≠ j := by
    rintro j ⟨_, entry, present, _⟩ rfl
    simp [SpinExecutor.dropEntry] at present
  apply kept.mono
  · exact kept.free
  · intro j wanted
    have apart := other j wanted
    rcases wanted with ⟨attributed, entry, present, more⟩
    simp only [SpinExecutor.dropEntry, Mask.has_erase, apart, decide_false, Bool.not_false,
      Bool.and_true, update_of_ne (Ne.symm apart)] at attributed present more
    exact ⟨attributed, entry, present, more⟩
  · intro j wanted marked
    have apart := other j wanted
    simpa [SpinExecutor.Marked, SpinExecutor.InDeferred, SpinExecutor.dropEntry, apart]
      using marked

theorem completeDeferredRelease (i : Nat) :
    Unlocked (s.completeDeferredRelease i) := by
  rw [SpinExecutor.completeDeferredRelease]
  split
  · exact kept.dropEntry i
  · exact kept

end

theorem foldl_completeDeferredRelease (slots : List Nat) (kept : Unlocked s) :
    Unlocked (slots.foldl SpinExecutor.completeDeferredRelease s) := by
  induction slots generalizing s with
  | nil => exact kept
  | cons i slots ih => exact ih (kept.completeDeferredRelease i)

section

variable (kept : Unlocked s)
include kept

theorem reapDeferredReleases : Unlocked s.reapDeferredReleases :=
  foldl_completeDeferredRelease _ kept

theorem setTag (i : Nat) (tag : SlotTag) : Unlocked (s.setTag i tag) :=
  ⟨kept.free, kept.marked⟩

theorem setPass (p : Nat) (pass : Option SpinPass) :
    Unlocked (s.setPass p pass) :=
  ⟨kept.free, kept.marked⟩

theorem applyTimerOp (i : Nat) (op : TimerOp) (clocks : ClockReadings) :
    Unlocked (s.applyTimerOp i op clocks) := by
  rw [SpinExecutor.applyTimerOp]
  split
  · apply kept.setBody
    intro entry present
    exact Nat.zero_le _
  · exact kept

theorem finishDispatch (i : Nat) (clocks : ClockReadings) :
    Unlocked (s.finishDispatch i clocks) := by
  apply completeDeferredRelease
  apply setTag
  rw [SpinExecutor.applyDeferredTimerOp]
  split
  · exact (kept.setTag i _).applyTimerOp i _ clocks
  · exact kept

theorem releaseEntry (i : Nat) : Unlocked (s.releaseEntry i) := by
  rw [SpinExecutor.releaseEntry]
  split
  · exact kept.setTag i _
  · exact kept.dropEntry i

variable (cfg : SpinConfig)

theorem consumeDispatchRuntime (i : Nat) (elapsedUs : UInt32)
    : Unlocked (s.consumeDispatchRuntime cfg i elapsedUs) := by
  rw [SpinExecutor.consumeDispatchRuntime]
  split
  · exact ⟨kept.free, kept.marked⟩
  · exact kept

theorem settleTimer (i : Nat) : Unlocked (s.settleTimer i) := by
  rw [SpinExecutor.settleTimer]
  split
  · apply kept.setBody
    intro entry present
    exact Nat.zero_le _
  · exact kept

theorem mergeMidPass (band : SlotMask) (queue : List Nat) (settled : SlotMask)
    : Unlocked (s.mergeMidPass cfg band queue settled).1 := by
  apply kept.mono
  · exact kept.free
  · intro i wanted
    exact wanted
  · intro i wanted marked
    have attributed : s.entityAttributed.has i = true := wanted.1
    rcases marked with arrived | asked | deferred | running
    · by_cases inside : band.has i = true
      · by_cases joined : settled.has i = true
        · refine .inr (.inl ?_)
          simp [SpinExecutor.mergeMidPass, SpinExecutor.deferReady, arrived, inside, joined,
            attributed]
        · by_cases apart : s.deferredMask.has i = true
          · refine .inr (.inr (.inl ⟨apart, ?_⟩))
            simp [SpinExecutor.mergeMidPass, SpinExecutor.deferReady, arrived, inside, joined,
              attributed, apart]
          · refine .inr (.inl ?_)
            simp [SpinExecutor.mergeMidPass, SpinExecutor.deferReady, arrived, inside, joined,
              attributed, apart]
      · refine .inl ?_
        simp [SpinExecutor.mergeMidPass, SpinExecutor.deferReady, arrived, inside]
    · refine .inr (.inl ?_)
      simp [SpinExecutor.mergeMidPass, SpinExecutor.deferReady, asked]
    · refine .inr (.inr (.inl ⟨deferred.1, ?_⟩))
      simp [SpinExecutor.mergeMidPass, SpinExecutor.deferReady, deferred.2]
    · exact .inr (.inr (.inr running))

variable (p : Nat)

theorem afterPick (pass : SpinPass) :
    Unlocked (s.afterPick cfg p pass) := by
  rw [SpinExecutor.afterPick]
  split
  case h_1 queue settled skipped _ =>
    split
    · exact (kept.mergeMidPass cfg pass.band queue settled).setPass p _
    · exact kept.setPass p _
  case h_2 => exact kept.setPass p _

theorem startDispatch (pass : SpinPass) (i : Nat) (entry : CallbackMeta)
    (present : s.entries i = some entry) (clocks : ClockReadings) (took : Bool) :
    Unlocked (s.startDispatch p pass i entry.body clocks took) := by
  apply setPass
  apply setTag
  apply kept.setBody
  intro again found
  rw [present] at found
  cases found
  exact entry.body.waiting_begin_le clocks pass.deltaUs took

theorem sweepNext (pass : SpinPass) (i : Nat) (clocks : ClockReadings) :
    Unlocked (s.sweepNext p pass i clocks) := by
  simp only [SpinExecutor.sweepNext]
  split
  case h_1 entry present =>
    split
    · exact kept.startDispatch p _ i entry present clocks false
    · exact kept.setPass p _
  case h_2 => exact kept.setPass p _

theorem pick (pass : SpinPass) (queue : List Nat) (settled skipped : SlotMask) (i : Nat)
    (clocks : ClockReadings) (took : Bool) :
    Unlocked (s.pick cfg p pass queue settled skipped i clocks took) := by
  simp only [SpinExecutor.pick]
  split
  · exact kept.setPass p _
  · split
    case h_1 entry present =>
      split
      · exact kept.afterPick cfg p _
      · exact kept.startDispatch p _ i entry present clocks took
    case h_2 => exact kept.afterPick cfg p _

theorem callbackReturn (pass : SpinPass) (running : Running) (clocks : ClockReadings)
    (elapsedUs : Option UInt32) :
    Unlocked (s.callbackReturn cfg p pass running clocks elapsedUs) := by
  have settled : Unlocked (if running.fired then s.settleTimer running.slot else s) := by
    split
    · exact kept.settleTimer running.slot
    · exact kept
  simp only [SpinExecutor.callbackReturn]
  split
  · apply afterPick
    apply finishDispatch
    exact settled.consumeDispatchRuntime cfg running.slot _
  · apply afterPick
    exact settled.finishDispatch running.slot clocks

theorem setDeferredRun (d : Nat) (run : Option DeferredRun)
    (idle : ∀ before, s.deferredRuns d = some before → before.running = none) :
    Unlocked (s.setDeferredRun d run) := by
  apply kept.mono
  · exact kept.free
  · intro i wanted
    exact wanted
  · rintro i _ (arrived | asked | deferred | ⟨other, before, here, busy⟩)
    · exact .inl arrived
    · exact .inr (.inl asked)
    · exact .inr (.inr (.inl deferred))
    · have apart : other ≠ d := by
        rintro rfl
        rw [idle before here] at busy
        cases busy
      exact .inr (.inr (.inr ⟨other, before, (update_of_ne apart _ _).trans here, busy⟩))

theorem dispatchDeferredSlot (d : Nat) (run : DeferredRun) (rest : SlotMask) (i : Nat)
    (clocks : ClockReadings) (took : Bool) (here : s.deferredRuns d = some run)
    (idle : run.running = none) :
    Unlocked (s.dispatchDeferredSlot d rest i clocks took) := by
  have unused : ∀ before, s.deferredRuns d = some before → before.running = none := by
    intro before found
    rw [here] at found
    cases found
    exact idle
  simp only [SpinExecutor.dispatchDeferredSlot]
  split
  · exact kept.setDeferredRun d _ unused
  · split
    case h_1 entry present =>
      -- the slot's own bit goes to the drain, the others stay where they are
      have fewer := kept.setBody i (entry.body.begin clocks 0 took).1 (by
        intro again found
        rw [present] at found
        cases found
        exact entry.body.waiting_begin_le clocks 0 took)
      have begun := fewer.setDeferredRun d (some ⟨rest, some i⟩) unused
      apply begun.mono
      · exact kept.free
      · intro j wanted
        exact wanted
      · intro j _ marked
        by_cases same : i = j
        · subst same
          exact .inr (.inr (.inr ⟨d, _, update_self d _ _, rfl⟩))
        · simpa [SpinExecutor.Marked, SpinExecutor.InDeferred, SpinExecutor.setBody,
            SpinExecutor.setTag, SpinExecutor.setDeferredRun, same] using marked
    case h_2 vacant =>
      have replaced := kept.setDeferredRun d (some ⟨rest, none⟩) unused
      apply replaced.mono
      · exact kept.free
      · intro j wanted
        exact wanted
      · intro j wanted marked
        have apart : i ≠ j := by
          rintro rfl
          rcases wanted.2 with ⟨entry, present, _⟩
          have absent : s.entries i = none := vacant
          change s.entries i = some entry at present
          rw [absent] at present
          cases present
        simpa [SpinExecutor.Marked, SpinExecutor.InDeferred, SpinExecutor.setDeferredRun, apart]
          using marked

theorem deferredReturn (d : Nat) (run : DeferredRun) (i : Nat) (clocks : ClockReadings)
    (here : s.deferredRuns d = some run) (busy : run.running = some i) :
    Unlocked (s.deferredReturn d run.rest i clocks) := by
  have finished := kept.finishDispatch i clocks
  have runs := (SpinExecutor.SameWork.finishDispatch s i clocks).deferredRuns
  apply finished.mono
  · exact finished.free
  · intro j wanted
    exact wanted
  · intro j wanted marked
    by_cases same : i = j
    · subst same
      refine .inr (.inl ?_)
      have attributed : (s.finishDispatch i clocks).entityAttributed.has i = true := wanted.1
      simp [SpinExecutor.deferredReturn, SpinExecutor.setDeferredRun, attributed]
    · rcases marked with arrived | asked | deferred | ⟨other, before, found, running⟩
      · exact .inl arrived
      · refine .inr (.inl ?_)
        simp [SpinExecutor.deferredReturn, SpinExecutor.setDeferredRun, asked]
      · exact .inr (.inr (.inl deferred))
      · have apart : other ≠ d := by
          rintro rfl
          rw [runs, here] at found
          cases found
          rw [busy] at running
          exact same (Option.some.inj running)
        exact .inr (.inr (.inr ⟨other, before, (update_of_ne apart _ _).trans found, running⟩))

theorem register (i : Nat) (entry : CallbackMeta) (attributed polled : Bool) (inside : i < 64)
    : Unlocked (s.register i entry attributed polled) where
  free := kept.free
  marked j wanted := by
    by_cases same : i = j
    · subst same
      refine .inr (.inl ?_)
      have armed := wanted.1
      cases attributed with
      | true => simp [SpinExecutor.register, inside]
      | false => simp [SpinExecutor.register] at armed
    · rcases wanted with ⟨armed, found, present, more⟩
      simp only [SpinExecutor.register, update_of_ne (Ne.symm same)] at present more
      have before : s.entityAttributed.has j = true := by
        cases attributed <;> simpa [SpinExecutor.register, same] using armed
      have marked := kept.marked j ⟨before, found, present, more⟩
      cases attributed <;>
        simpa [SpinExecutor.Marked, SpinExecutor.InDeferred, SpinExecutor.register, same]
          using marked

theorem setDeferred (i : Nat) (deferred : Bool)
    (elsewhere : deferred = false → s.Waits i → s.deferredPending.has i = true →
      s.ready.has i = true ∨ s.entityRecheck.has i = true ∨ s.InDeferred i) :
    Unlocked (s.setDeferred i deferred) := by
  rw [SpinExecutor.setDeferred]
  split
  · exact kept
  · split
    case isTrue =>
      apply kept.mono
      · exact kept.free
      · intro j wanted
        exact wanted
      · rintro j _ (arrived | asked | queued | running)
        · exact .inl arrived
        · exact .inr (.inl asked)
        · refine .inr (.inr (.inl ⟨?_, queued.2⟩))
          simp [queued.1]
        · exact .inr (.inr (.inr running))
    case isFalse off =>
      apply kept.mono
      · exact kept.free
      · intro j wanted
        exact wanted
      · intro j wanted marked
        by_cases same : i = j
        · subst same
          rcases marked with arrived | asked | queued | running
          · exact .inl arrived
          · exact .inr (.inl asked)
          · rcases elsewhere (Bool.not_eq_true _ ▸ off) wanted queued.2 with
              arrived | asked | running
            · exact .inl arrived
            · exact .inr (.inl asked)
            · exact .inr (.inr (.inr running))
          · exact .inr (.inr (.inr running))
        · simpa [SpinExecutor.Marked, SpinExecutor.InDeferred, same] using marked

end

end Unlocked

namespace SpinExecutor

variable {s : SpinExecutor}

theorem waits_of_enqueue {i j : Nat} (wanted : (s.enqueue i).Waits j) : s.Waits j := by
  rw [enqueue] at wanted
  split at wanted
  case h_1 entry present =>
    rcases wanted with ⟨attributed, found, after, more⟩
    change s.entityAttributed.has j = true at attributed
    refine ⟨attributed, ?_⟩
    by_cases same : j = i
    · subst same
      rcases Option.map_eq_some_iff.mp present with ⟨before, was, body⟩
      change update s.entries j ((s.entries j).map _) j = some found at after
      rw [update_self, was, Option.map_some] at after
      cases after
      simp only [attributed, if_true, update_self, EntryBody.waiting] at more
      refine ⟨before, was, ?_⟩
      rw [body]
      simp only [EntryBody.waiting]
      omega
    · change update s.entries i ((s.entries i).map _) j = some found at after
      rw [update_of_ne same] at after
      refine ⟨found, after, ?_⟩
      have count : (if s.entityAttributed.has i then
          update s.announcing i (s.announcing i + 1) else s.announcing) j = s.announcing j := by
        split
        · exact update_of_ne same _ _
        · rfl
      exact count ▸ more
  case h_2 => exact wanted

theorem marked_enqueue {i j : Nat} (marked : s.Marked j) : (s.enqueue i).Marked j := by
  rw [enqueue]
  split
  · exact marked
  · exact marked

theorem marked_or_waits_of_announce {i j : Nat} (wanted : (s.announce i).Waits j) :
    (s.announce i).Marked j ∨ s.Waits j := by
  by_cases same : i = j
  · subst same
    have inside : i < 64 := Mask.has_lt wanted.1
    refine .inl (.inl ?_)
    simp [announce, inside]
  · rcases wanted with ⟨attributed, entry, present, more⟩
    simp only [announce, update_of_ne (Ne.symm same)] at more
    exact .inr ⟨attributed, entry, present, more⟩

theorem marked_announce {i j : Nat} (marked : s.Marked j) : (s.announce i).Marked j := by
  rcases marked with arrived | asked | queued | running
  · refine .inl ?_
    simp [announce, arrived]
  · exact .inr (.inl asked)
  · exact .inr (.inr (.inl queued))
  · exact .inr (.inr (.inr running))

end SpinExecutor

namespace Kept

variable {s : SpinExecutor}

theorem background {next : SpinExecutor} (kept : Kept s) (scan : next.scan = s.scan)
    (passes : next.passes = s.passes) (attributed : next.entityAttributed = s.entityAttributed)
    (waits : ∀ i, next.Waits i → next.Marked i ∨ s.Waits i)
    (marks : ∀ i, s.Marked i → next.Marked i) : Kept next := by
  rcases kept with unlocked | ⟨held, locked⟩
  · refine .inl ⟨scan.trans unlocked.free, fun i wanted => ?_⟩
    rcases waits i wanted with marked | before
    · exact marked
    · exact marks i (unlocked.marked i before)
  · refine .inr ⟨held, scan.trans locked.locked, passes ▸ locked.vacant,
      locked.attributed.trans attributed.symm, ?_⟩
    intro i wanted
    rcases waits i wanted with marked | before
    · exact .inl marked
    · exact (locked.marked i before).imp_left (marks i)

theorem enqueue (kept : Kept s) (i : Nat) : Kept (s.enqueue i) := by
  apply kept.background
  · exact (SpinExecutor.SameWork.enqueue s i).scan
  · exact (SpinExecutor.SameWork.enqueue s i).passes
  · rw [SpinExecutor.enqueue]
    split
    · rfl
    · rfl
  · intro j wanted
    exact .inr (SpinExecutor.waits_of_enqueue wanted)
  · intro j marked
    exact SpinExecutor.marked_enqueue marked

theorem announce (kept : Kept s) (i : Nat) : Kept (s.announce i) := by
  apply kept.background
  · rfl
  · rfl
  · rfl
  · intro j wanted
    exact SpinExecutor.marked_or_waits_of_announce wanted
  · intro j marked
    exact SpinExecutor.marked_announce marked

end Kept

variable {s : SpinExecutor} {scan : Scan}

theorem Unlocked.beginScan (kept : Unlocked s) (p : Nat) (band : SlotMask) (nowUs : Option Nat)
    (deltaUs : Nat) (unused : s.passes p = none) :
    ∃ scan, Locked (s.beginScan p band nowUs deltaUs) scan := by
  refine ⟨_, rfl, unused, rfl, ?_⟩
  intro i wanted
  have attributed : s.entityAttributed.has i = true := wanted.1
  rcases kept.marked i wanted with arrived | asked | queued | running
  · by_cases inside : band.has i = true
    · refine .inr ⟨inside, ?_⟩
      simp [arrived, inside, attributed]
    · refine .inl (.inl ?_)
      simp [SpinExecutor.beginScan, arrived, inside]
  · by_cases inside : band.has i = true
    · refine .inr ⟨inside, ?_⟩
      simp [asked, inside, attributed]
    · refine .inl (.inr (.inl ?_))
      simp [SpinExecutor.beginScan, asked, inside]
  · exact .inl (.inr (.inr (.inl queued)))
  · exact .inl (.inr (.inr (.inr running)))

section ScanSlot

variable (s : SpinExecutor) (scan : Scan)

/-- The scan comes to one slot at a time; of the others it keeps what it has. -/
structure ScanFrame (after : Scan) : Prop where
  next : after.next = scan.next + 1
  pass : after.pass = scan.pass
  band : after.band = scan.band
  nowUs : after.nowUs = scan.nowUs
  deltaUs : after.deltaUs = scan.deltaUs
  attributed : after.attributed = scan.attributed
  arrived : after.arrived = scan.arrived
  recheck : after.recheck = scan.recheck
  bits : ∀ i, i ≠ scan.next → after.bits.has i = scan.bits.has i
  carry : ∀ i, i ≠ scan.next → after.carry.has i = scan.carry.has i

theorem scanSlot_frame : ScanFrame scan (s.scanSlot scan) := by
  have other : ∀ i, i ≠ scan.next → decide (scan.next = i) = false := by
    intro i apart
    exact decide_eq_false (Ne.symm apart)
  simp only [SpinExecutor.scanSlot]
  split
  · exact ⟨rfl, rfl, rfl, rfl, rfl, rfl, rfl, rfl, fun _ _ => rfl, fun _ _ => rfl⟩
  · split
    · exact ⟨rfl, rfl, rfl, rfl, rfl, rfl, rfl, rfl, fun _ _ => rfl, fun _ _ => rfl⟩
    · split
      · refine ⟨rfl, rfl, rfl, rfl, rfl, rfl, rfl, rfl, fun _ _ => rfl, fun i apart => ?_⟩
        simp [other i apart]
      · refine ⟨rfl, rfl, rfl, rfl, rfl, rfl, rfl, rfl, fun i apart => ?_, fun _ _ => rfl⟩
        dsimp only
        split
        · simp [other i apart]
        · rfl

theorem scanSlot_holds {entry : CallbackMeta} (inside : scan.next < 64)
    (present : s.entries scan.next = some entry) (band : scan.band.has scan.next = true)
    (ready : s.held scan.next = false →
      SpinExecutor.scanReady { scan with next := scan.next + 1 } scan.next entry.body = true)
    (taken : scan.arrived.has scan.next = true ∨ scan.recheck.has scan.next = true) :
    (s.scanSlot scan).bits.has scan.next = true ∨ (s.scanSlot scan).carry.has scan.next = true := by
  simp only [SpinExecutor.scanSlot, present, band]
  by_cases held : s.held scan.next = true
  · refine .inr ?_
    simpa [held] using Or.inr taken
  · refine .inl ?_
    simp [held, ready (Bool.not_eq_true _ ▸ held), inside]

end ScanSlot

theorem Locked.scanSlot (kept : Locked s scan) (more : scan.next < 64) :
    Locked { s with scan := some (s.scanSlot scan) } (s.scanSlot scan) := by
  have frame := scanSlot_frame s scan
  refine ⟨rfl, (congrArg s.passes frame.pass).trans kept.vacant,
    frame.attributed.trans kept.attributed, ?_⟩
  intro i wanted
  apply (kept.marked i wanted).imp_right
  rintro ⟨inside, taken⟩
  refine ⟨frame.band ▸ inside, ?_⟩
  rw [frame.next, frame.arrived, frame.recheck]
  by_cases same : i = scan.next
  · subst same
    rw [if_neg (Nat.lt_irrefl _)] at taken
    rw [if_pos (Nat.lt_succ_self _)]
    rcases wanted with ⟨attributed, entry, present, items⟩
    apply scanSlot_holds s scan more present inside _ taken
    intro _
    -- an announced arrival needs no probe, and a probe finds what still waits
    have pushed : scan.attributed.has scan.next = true := kept.attributed ▸ attributed
    rcases taken with arrived | asked
    · simp [SpinExecutor.scanReady, pushed, arrived]
    · have data := entry.body.hasData_of_waiting (Nat.lt_of_le_of_lt (Nat.zero_le _) items)
      simp [SpinExecutor.scanReady, pushed, asked, data]
  · rw [frame.bits i same, frame.carry i same]
    by_cases before : i < scan.next
    · rw [if_pos before] at taken
      rw [if_pos (Nat.lt_succ_of_lt before)]
      exact taken
    · rw [if_neg before] at taken
      rw [if_neg (by omega)]
      exact taken

section

variable (kept : Unlocked s)
include kept

theorem Unlocked.startSweep (scan : Scan) :
    Unlocked (s.startSweep scan) :=
  kept.setPass scan.pass _

theorem Unlocked.preSample (band : SlotMask) :
    Unlocked (s.preSample band) := by
  apply kept.withEntries
  intro i after present
  split at present
  · rcases Option.map_eq_some_iff.mp present with ⟨before, was, rfl⟩
    exact ⟨before, was, before.body.waiting_preSample_le⟩
  · exact ⟨after, present, Nat.le_refl _⟩

theorem Unlocked.advanceThrottled (cfg : SpinConfig) (active : SlotMask) (clocks : ClockReadings)
    (deltaUs : Nat) :
    Unlocked (s.advanceThrottled cfg active clocks deltaUs) := by
  apply kept.withEntries
  intro i after present
  split at present
  · rcases Option.map_eq_some_iff.mp present with ⟨before, was, rfl⟩
    exact ⟨before, was, before.body.waiting_skip_le clocks deltaUs⟩
  · exact ⟨after, present, Nat.le_refl _⟩

theorem Unlocked.refillSporadic (nowUs : Option Nat) :
    Unlocked (s.refillSporadic nowUs) := by
  cases nowUs with
  | some now => exact ⟨kept.free, kept.marked⟩
  | none => exact kept

theorem Unlocked.startDrain (cfg : SpinConfig) (scan : Scan) (active : SlotMask)
    (clocks : ClockReadings) :
    Unlocked (s.startDrain cfg scan active clocks) := by
  have sampled : Unlocked
      (if cfg.semantics = .logicalExecutionTime then s.preSample scan.band else s) := by
    split
    · exact kept.preSample scan.band
    · exact kept
  apply setPass
  apply advanceThrottled
  exact sampled.refillSporadic scan.nowUs

end

theorem Locked.endScan (kept : Locked s scan) (all : 64 ≤ scan.next) :
    Unlocked (s.endScan scan) := by
  refine ⟨rfl, fun i wanted => ?_⟩
  have attributed : s.entityAttributed.has i = true := wanted.1
  rcases kept.marked i wanted with (arrived | asked | queued | running) | ⟨_, found⟩
  · exact .inl arrived
  · refine .inr (.inl ?_)
    simp [SpinExecutor.endScan, SpinExecutor.deferReady, asked]
  · refine .inr (.inr (.inl ⟨queued.1, ?_⟩))
    simp [SpinExecutor.endScan, SpinExecutor.deferReady, queued.2]
  · exact .inr (.inr (.inr running))
  · rw [if_pos (Nat.lt_of_lt_of_le (Mask.has_lt attributed) all)] at found
    rcases found with ready | carried
    · by_cases deferred : s.deferredMask.has i = true
      · refine .inr (.inr (.inl ⟨deferred, ?_⟩))
        simp [SpinExecutor.endScan, SpinExecutor.deferReady, ready, deferred]
      · refine .inr (.inl ?_)
        simp [SpinExecutor.endScan, SpinExecutor.deferReady, ready, deferred, kept.attributed,
          attributed]
    · refine .inr (.inl ?_)
      simp [SpinExecutor.endScan, SpinExecutor.deferReady, carried]

theorem Locked.evaluate (kept : Locked s scan) (all : 64 ≤ scan.next) (cfg : SpinConfig)
    (clocks : ClockReadings) :
    Unlocked (s.evaluate cfg scan clocks) := by
  rw [SpinExecutor.evaluate]
  split
  · exact (kept.endScan all).startDrain cfg scan _ clocks
  · exact (kept.endScan all).startSweep scan

end NanoRos
