import NanoRos.Lib.Counters

/-! The timers of the executor (`timer_try_process`, `timer_advance_without_dispatch`). -/

namespace NanoRos

inductive TimerOverrunPolicy where
  | skip
  | catchUp
  deriving DecidableEq

inductive TimerClockSource where
  | steady
  | ros
  | system
  deriving DecidableEq

structure TimerEntry where
  periodUs : Nat
  elapsedUs : Nat
  overruns : UInt32
  oneshot : Bool
  fired : Bool
  cancelled : Bool
  overrunPolicy : TimerOverrunPolicy
  clockSource : TimerClockSource
  lastClockNs : Int

/-- What the clocks read when the executor looks at them, in nanoseconds. -/
structure ClockReadings where
  steadyNs : Int
  rosNs : Int
  systemNs : Int

def TimerClockSource.nowNs (source : TimerClockSource) (clocks : ClockReadings) : Int :=
  match source with
  | .steady => 0
  | .ros => clocks.rosNs
  | .system => clocks.systemNs

def TimerClockSource.dispatchNowNs (source : TimerClockSource) (clocks : ClockReadings)
    (lastClockNs : Int) : Int :=
  match source with
  | .steady => clocks.steadyNs
  | .ros | .system => lastClockNs

structure TimerCallInfo where
  expectedCallTime : Int
  actualCallTime : Int
  clock : TimerClockSource
  sinceLastCallNs : Int

/-- A timer as the executor registers it. -/
def registerTimer (periodUs : Nat) (oneshot autostart : Bool) (source : TimerClockSource)
    (clocks : ClockReadings) : TimerEntry where
  periodUs := periodUs
  elapsedUs := 0
  overruns := 0
  oneshot := oneshot
  fired := false
  cancelled := !autostart
  overrunPolicy := .skip
  clockSource := source
  lastClockNs := source.nowNs clocks

inductive TimerStep where
  | advance (us : Nat)
  | restart

/-- The step of the timer's own clock, and the reading it is to remember. -/
def timerClockStep (source : TimerClockSource) (lastClockNs : Int) (clocks : ClockReadings)
    (spinDeltaUs : Nat) : TimerStep × Int :=
  match source with
  | .steady => (.advance spinDeltaUs, lastClockNs)
  | source =>
    let nowNs := source.nowNs clocks
    let stepNs := nowNs - lastClockNs
    if stepNs < 0 then (.restart, nowNs) else (.advance (stepNs.toNat / 1000), nowNs)

def timerAdvanceWithoutDispatch (header : TimerEntry) (clocks : ClockReadings)
    (spinDeltaUs : Nat) : TimerEntry :=
  let (step, reading) := timerClockStep header.clockSource header.lastClockNs clocks spinDeltaUs
  match step with
  | .advance us =>
    { header with lastClockNs := reading, elapsedUs := saturatingAdd64 header.elapsedUs us }
  | .restart => { header with lastClockNs := reading, elapsedUs := 0 }

/-- The periods missed beyond the one that fired, and what stays on the phase grid. -/
def skipOverrun (elapsedUs periodUs : Nat) : Nat × Nat :=
  (elapsedUs / periodUs - 1, elapsedUs % periodUs)

def timerCallInfo (source : TimerClockSource) (clocks : ClockReadings) (lastClockNs : Int)
    (elapsedUs periodUs : Nat) : TimerCallInfo :=
  let actual := source.dispatchNowNs clocks lastClockNs
  let lateUs := if periodUs = 0 then 0 else elapsedUs - periodUs
  { expectedCallTime := saturatingSubI64 actual (i64OfNat (saturatingMul lateUs 1000))
    actualCallTime := actual
    clock := source
    sinceLastCallNs := i64OfNat (saturatingMul elapsedUs 1000) }

/-- What the dispatcher does to the entry once its callback is back. -/
def timerSettle (entry : TimerEntry) : TimerEntry :=
  if entry.oneshot then { entry with fired := true }
  else if entry.periodUs = 0 then { entry with elapsedUs := 0 }
  else
    match entry.overrunPolicy with
    | .catchUp => { entry with elapsedUs := entry.elapsedUs - entry.periodUs }
    | .skip =>
      let (missed, remainder) := skipOverrun entry.elapsedUs entry.periodUs
      { entry with
        overruns := if 0 < missed then
            saturatingAdd entry.overruns (UInt32.ofNat (min missed u32Max))
          else entry.overruns
        elapsedUs := remainder }

/-- The callback may reach its own timer (a reset inside the callback); `some` tells that it
ran, and with which call info. -/
def timerTryProcess (callback : TimerCallInfo → TimerEntry → TimerEntry) (entry : TimerEntry)
    (clocks : ClockReadings) (deltaUs : Nat) : Option TimerCallInfo × TimerEntry :=
  if entry.cancelled || (entry.oneshot && entry.fired) then (none, entry)
  else
    let (step, reading) := timerClockStep entry.clockSource entry.lastClockNs clocks deltaUs
    let entry := { entry with lastClockNs := reading }
    match step with
    | .restart => (none, { entry with elapsedUs := 0 })
    | .advance us =>
      let entry := { entry with elapsedUs := saturatingAdd64 entry.elapsedUs us }
      if entry.periodUs ≤ entry.elapsedUs then
        let info := timerCallInfo entry.clockSource clocks entry.lastClockNs entry.elapsedUs
          entry.periodUs
        (some info, timerSettle (callback info entry))
      else (none, entry)

inductive TimerEvent where
  | tryProcess (deltaUs : Nat) (clocks : ClockReadings)
  | advanceWithoutDispatch (deltaUs : Nat) (clocks : ClockReadings)

/-- The timer next to the time it was fed and the times its callback ran. -/
structure TimerRun where
  entry : TimerEntry
  totalUs : Nat
  activations : Nat

/-- A repeating timer on the steady clock, before its first spin. -/
def steadyTimer (periodUs : Nat) (policy : TimerOverrunPolicy) (clocks : ClockReadings) :
    TimerRun where
  entry := { registerTimer periodUs false true .steady clocks with overrunPolicy := policy }
  totalUs := 0
  activations := 0

/-- The callback leaves its timer alone: no cancel and no reset. -/
def TimerRun.step (timer : TimerRun) : TimerEvent → TimerRun
  | .tryProcess deltaUs clocks =>
    let (ran, entry) := timerTryProcess (fun _ entry => entry) timer.entry clocks deltaUs
    { entry := entry
      totalUs := timer.totalUs + deltaUs
      activations := timer.activations + ran.toList.length }
  | .advanceWithoutDispatch deltaUs clocks =>
    { timer with
      entry := timerAdvanceWithoutDispatch timer.entry clocks deltaUs
      totalUs := timer.totalUs + deltaUs }

def TimerRun.run (timer : TimerRun) (events : List TimerEvent) : TimerRun :=
  events.foldl TimerRun.step timer

def TimerEvent.deltaUs : TimerEvent → Nat
  | .tryProcess deltaUs _ => deltaUs
  | .advanceWithoutDispatch deltaUs _ => deltaUs

theorem totalUs_run (timer : TimerRun) (events : List TimerEvent) :
    (timer.run events).totalUs = timer.totalUs + (events.map TimerEvent.deltaUs).sum := by
  induction events generalizing timer with
  | nil => rfl
  | cons event events ih =>
    have stepped : (timer.step event).totalUs = timer.totalUs + event.deltaUs := by
      cases event <;> rfl
    calc
      ((timer.step event).run events).totalUs
          = (timer.step event).totalUs + (events.map TimerEvent.deltaUs).sum := ih _
      _ = timer.totalUs + ((event :: events).map TimerEvent.deltaUs).sum := by
        rw [stepped, List.map_cons, List.sum_cons, Nat.add_assoc]

/-- What stays as it was registered: a repeating timer on the steady clock. -/
structure TimerEntry.Periodic (entry : TimerEntry) (periodUs : Nat)
    (policy : TimerOverrunPolicy) : Prop where
  period : entry.periodUs = periodUs
  repeats : entry.oneshot = false
  armed : entry.cancelled = false
  steady : entry.clockSource = .steady
  policy : entry.overrunPolicy = policy

section Periodic

variable {entry : TimerEntry} {periodUs : Nat} {policy : TimerOverrunPolicy}

section

variable (periodic : entry.Periodic periodUs policy)
include periodic

variable (clocks : ClockReadings)

theorem timerTryProcess_waits (deltaUs : Nat) (fits : entry.elapsedUs + deltaUs ≤ u64Max)
    (early : entry.elapsedUs + deltaUs < periodUs) :
    timerTryProcess (fun _ entry => entry) entry clocks deltaUs =
      (none, { entry with elapsedUs := entry.elapsedUs + deltaUs }) := by
  simp [timerTryProcess, timerClockStep, periodic.armed, periodic.repeats, periodic.steady,
    periodic.period, saturatingAdd64_eq _ _ fits, Nat.not_le.mpr early]

theorem timerTryProcess_fires (deltaUs : Nat) (fits : entry.elapsedUs + deltaUs ≤ u64Max)
    (due : periodUs ≤ entry.elapsedUs + deltaUs) :
    ∃ info, timerTryProcess (fun _ entry => entry) entry clocks deltaUs =
      (some info, timerSettle { entry with elapsedUs := entry.elapsedUs + deltaUs }) := by
  simp [timerTryProcess, timerClockStep, periodic.armed, periodic.repeats, periodic.steady,
    periodic.period, saturatingAdd64_eq _ _ fits, due]

theorem timerAdvance_periodic (deltaUs : Nat) (fits : entry.elapsedUs + deltaUs ≤ u64Max) :
    timerAdvanceWithoutDispatch entry clocks deltaUs =
      { entry with elapsedUs := entry.elapsedUs + deltaUs } := by
  simp [timerAdvanceWithoutDispatch, timerClockStep, periodic.steady, saturatingAdd64_eq _ _ fits]

end

theorem timerSettle_catchUp (periodic : entry.Periodic periodUs .catchUp) (positive : 1 ≤ periodUs) :
    timerSettle entry = { entry with elapsedUs := entry.elapsedUs - periodUs } := by
  have nonzero : periodUs ≠ 0 := Nat.one_le_iff_ne_zero.mp positive
  simp [timerSettle, periodic.repeats, periodic.period, periodic.policy, nonzero]

theorem timerSettle_skip (period : entry.periodUs = periodUs) (repeats : entry.oneshot = false)
    (skips : entry.overrunPolicy = .skip) (positive : 1 ≤ periodUs) :
    ∃ overruns, timerSettle entry =
        { entry with overruns := overruns, elapsedUs := entry.elapsedUs % periodUs } ∧
      overruns.toNat = min (entry.overruns.toNat + (entry.elapsedUs / periodUs - 1)) u32Max := by
  have nonzero : periodUs ≠ 0 := Nat.one_le_iff_ne_zero.mp positive
  refine ⟨_, by
    simp only [timerSettle, repeats, period, skips, nonzero, skipOverrun, if_false,
      Bool.false_eq_true]
    rfl, ?_⟩
  have bound := entry.overruns.toNat_lt
  split
  next =>
    rw [toNat_saturatingAdd, toNat_ofNat_u32 _ (Nat.min_le_right _ _)]
    omega
  next none =>
    have zero : entry.elapsedUs / periodUs - 1 = 0 := Nat.eq_zero_of_not_pos none
    rw [zero, Nat.add_zero, Nat.min_eq_left]
    simp only [u32Max]
    omega

theorem TimerEntry.Periodic.withElapsed (periodic : entry.Periodic periodUs policy)
    (overruns : UInt32) (elapsedUs : Nat) :
    { entry with overruns := overruns, elapsedUs := elapsedUs }.Periodic periodUs policy :=
  ⟨periodic.period, periodic.repeats, periodic.armed, periodic.steady, periodic.policy⟩

end Periodic

/-- Where the time went: into activations, into `missed` periods and into the remainder. The
counter of the entry shows the missed ones as far as a `u32` can. -/
structure TimerRun.Accounts (timer : TimerRun) (periodUs : Nat) (policy : TimerOverrunPolicy)
    (missed : Nat) : Prop where
  periodic : timer.entry.Periodic periodUs policy
  conserved : (timer.activations + missed) * periodUs + timer.entry.elapsedUs = timer.totalUs
  counted : timer.entry.overruns.toNat = min missed u32Max
  replayed : policy = .catchUp → missed = 0

section Accounts

variable {timer : TimerRun} {periodUs missed : Nat} {policy : TimerOverrunPolicy}

theorem TimerRun.Accounts.elapsed_le (accounts : timer.Accounts periodUs policy missed) :
    timer.entry.elapsedUs ≤ timer.totalUs := by
  rw [← accounts.conserved]
  exact Nat.le_add_left _ _

theorem accounts_steadyTimer (policy : TimerOverrunPolicy) (clocks : ClockReadings) :
    (steadyTimer periodUs policy clocks).Accounts periodUs policy 0 where
  periodic := ⟨rfl, rfl, rfl, rfl, rfl⟩
  conserved := by simp [steadyTimer, registerTimer]
  counted := rfl
  replayed := fun _ => rfl

/-- An activation takes its own period off the elapsed time; `Skip` moves the other whole periods
to the missed ones, `CatchUp` leaves them to later passes. -/
theorem accounts_settle {entry : TimerEntry} {activations totalUs : Nat}
    (accounts : (TimerRun.mk entry totalUs activations).Accounts periodUs policy missed)
    (positive : 1 ≤ periodUs) (due : periodUs ≤ entry.elapsedUs) :
    ∃ skipped, (TimerRun.mk (timerSettle entry) totalUs (activations + 1)).Accounts periodUs
      policy skipped := by
  have conserved : (activations + missed) * periodUs + entry.elapsedUs = totalUs :=
    accounts.conserved
  cases policy with
  | catchUp =>
    have settled := timerSettle_catchUp accounts.periodic positive
    refine ⟨missed, ?_, ?_, ?_, accounts.replayed⟩
    · rw [settled]
      exact accounts.periodic.withElapsed entry.overruns _
    · have onePeriod : (activations + 1 + missed) * periodUs =
          (activations + missed) * periodUs + periodUs := by ring
      simp only [settled]
      omega
    · rw [settled]
      exact accounts.counted
  | skip =>
    have periodic := accounts.periodic
    rcases timerSettle_skip periodic.period periodic.repeats periodic.policy positive with ⟨overruns, settled, counted⟩
    refine ⟨missed + (entry.elapsedUs / periodUs - 1), ?_, ?_, ?_, by simp⟩
    · rw [settled]
      exact accounts.periodic.withElapsed overruns _
    · have atLeastOne : 1 ≤ entry.elapsedUs / periodUs :=
        (Nat.one_le_div_iff positive).mpr due
      have whole : activations + 1 + (missed + (entry.elapsedUs / periodUs - 1)) =
          activations + missed + entry.elapsedUs / periodUs := by omega
      simp only [settled]
      calc
        (activations + 1 + (missed + (entry.elapsedUs / periodUs - 1))) * periodUs +
              entry.elapsedUs % periodUs
            = (activations + missed) * periodUs +
              (periodUs * (entry.elapsedUs / periodUs) + entry.elapsedUs % periodUs) := by
          rw [whole]
          ring
        _ = (activations + missed) * periodUs + entry.elapsedUs := by
          rw [Nat.div_add_mod]
        _ = totalUs := conserved
    · have before : entry.overruns.toNat = min missed u32Max := accounts.counted
      simp only [settled, counted, before]
      omega

section

variable (accounts : timer.Accounts periodUs policy missed)
include accounts

theorem accounts_advance (deltaUs : Nat) :
    TimerRun.Accounts ⟨{ timer.entry with elapsedUs := timer.entry.elapsedUs + deltaUs },
      timer.totalUs + deltaUs, timer.activations⟩ periodUs policy missed where
  periodic := accounts.periodic.withElapsed timer.entry.overruns _
  conserved := by
    have conserved := accounts.conserved
    simp only
    omega
  counted := accounts.counted
  replayed := accounts.replayed

theorem step_accounts (positive : 1 ≤ periodUs) (event : TimerEvent)
    (fits : (timer.step event).totalUs ≤ u64Max) :
    ∃ missed, (timer.step event).Accounts periodUs policy missed := by
  have elapsed := accounts.elapsed_le
  cases event with
  | advanceWithoutDispatch deltaUs clocks =>
    have room : timer.entry.elapsedUs + deltaUs ≤ u64Max :=
      le_trans (Nat.add_le_add_right elapsed deltaUs) fits
    refine ⟨missed, ?_⟩
    simp only [TimerRun.step, timerAdvance_periodic accounts.periodic clocks deltaUs room]
    exact accounts_advance accounts deltaUs
  | tryProcess deltaUs clocks =>
    have room : timer.entry.elapsedUs + deltaUs ≤ u64Max :=
      le_trans (Nat.add_le_add_right elapsed deltaUs) fits
    have advanced := accounts_advance accounts deltaUs
    by_cases due : periodUs ≤ timer.entry.elapsedUs + deltaUs
    · rcases timerTryProcess_fires accounts.periodic clocks deltaUs room due with ⟨info, fired⟩
      simp only [TimerRun.step, fired]
      exact accounts_settle advanced positive due
    · refine ⟨missed, ?_⟩
      simp only [TimerRun.step, timerTryProcess_waits accounts.periodic clocks deltaUs room
        (Nat.not_le.mp due)]
      exact advanced

theorem run_accounts (positive : 1 ≤ periodUs) (events : List TimerEvent)
    (fits : (timer.run events).totalUs ≤ u64Max) :
    ∃ missed, (timer.run events).Accounts periodUs policy missed := by
  induction events generalizing timer missed with
  | nil => exact ⟨missed, accounts⟩
  | cons event events ih =>
    have soFar : (timer.step event).totalUs ≤ u64Max := by
      refine le_trans ?_ fits
      rw [show timer.run (event :: events) = (timer.step event).run events from rfl, totalUs_run]
      exact Nat.le_add_right _ _
    rcases step_accounts accounts positive event soFar with ⟨_, stepped⟩
    exact ih stepped fits

end

theorem tryProcess_elapsed_lt (accounts : timer.Accounts periodUs .skip missed)
    (positive : 1 ≤ periodUs) (deltaUs : Nat) (clocks : ClockReadings)
    (fits : (timer.step (.tryProcess deltaUs clocks)).totalUs ≤ u64Max) :
    (timer.step (.tryProcess deltaUs clocks)).entry.elapsedUs < periodUs := by
  have room : timer.entry.elapsedUs + deltaUs ≤ u64Max :=
    le_trans (Nat.add_le_add_right accounts.elapsed_le deltaUs) fits
  by_cases due : periodUs ≤ timer.entry.elapsedUs + deltaUs
  · rcases timerTryProcess_fires accounts.periodic clocks deltaUs room due with ⟨info, fired⟩
    have advanced := accounts.periodic.withElapsed timer.entry.overruns
      (timer.entry.elapsedUs + deltaUs)
    rcases timerSettle_skip advanced.period advanced.repeats advanced.policy positive with ⟨overruns, settled, _⟩
    simp only [TimerRun.step, fired, settled]
    exact Nat.mod_lt _ positive
  · simp only [TimerRun.step, timerTryProcess_waits accounts.periodic clocks deltaUs room
      (Nat.not_le.mp due)]
    exact Nat.not_le.mp due

end Accounts

/-- The whole periods of the time so far that did not run the callback. -/
def TimerRun.missedPeriods (timer : TimerRun) : Nat :=
  timer.totalUs / timer.entry.periodUs - timer.activations

theorem steady_timer_conserves_activations (periodUs : Nat) (positive : 1 ≤ periodUs)
    (clocks : ClockReadings) (events : List TimerEvent)
    (fits : (events.map TimerEvent.deltaUs).sum < 2 ^ 64) :
    (∀ earlier deltaUs now, events = earlier ++ [.tryProcess deltaUs now] →
      ((steadyTimer periodUs .skip clocks).run events).missedPeriods < 2 ^ 32 →
      ((steadyTimer periodUs .skip clocks).run events).activations +
            ((steadyTimer periodUs .skip clocks).run events).entry.overruns.toNat =
          (events.map TimerEvent.deltaUs).sum / periodUs ∧
        ((steadyTimer periodUs .skip clocks).run events).entry.elapsedUs =
          (events.map TimerEvent.deltaUs).sum % periodUs) ∧
    ((steadyTimer periodUs .catchUp clocks).run events).activations * periodUs +
        ((steadyTimer periodUs .catchUp clocks).run events).entry.elapsedUs =
      (events.map TimerEvent.deltaUs).sum := by
  have total : ∀ policy, ((steadyTimer periodUs policy clocks).run events).totalUs =
      (events.map TimerEvent.deltaUs).sum := by
    intro policy
    rw [totalUs_run]
    exact Nat.zero_add _
  have room : ∀ policy, ((steadyTimer periodUs policy clocks).run events).totalUs ≤ u64Max := by
    intro policy
    rw [total, u64Max]
    omega
  constructor
  · intro earlier deltaUs now last few
    rcases run_accounts (accounts_steadyTimer .skip clocks) positive events (room .skip) with
      ⟨missed, accounts⟩
    have below : ((steadyTimer periodUs .skip clocks).run events).entry.elapsedUs < periodUs := by
      have whole := room .skip
      rw [last, TimerRun.run, List.foldl_append] at whole ⊢
      have before : ((steadyTimer periodUs .skip clocks).run earlier).totalUs ≤ u64Max :=
        le_trans (Nat.le_add_right _ deltaUs) whole
      rcases run_accounts (accounts_steadyTimer .skip clocks) positive earlier before with
        ⟨_, soFar⟩
      exact tryProcess_elapsed_lt soFar positive deltaUs now whole
    have conserved := accounts.conserved
    rw [total] at conserved
    have periods : (events.map TimerEvent.deltaUs).sum / periodUs =
        ((steadyTimer periodUs .skip clocks).run events).activations + missed := by
      rw [← conserved, Nat.mul_comm, Nat.mul_add_div positive, Nat.div_eq_of_lt below, Nat.add_zero]
    have counted := accounts.counted
    rw [TimerRun.missedPeriods, accounts.periodic.period, total, periods] at few
    constructor
    · rw [periods, counted, u32Max]
      omega
    · rw [← conserved, Nat.mul_comm, Nat.mul_add_mod, Nat.mod_eq_of_lt below]
  · rcases run_accounts (accounts_steadyTimer .catchUp clocks) positive events (room .catchUp) with
      ⟨missed, accounts⟩
    have conserved := accounts.conserved
    rw [accounts.replayed rfl, Nat.add_zero, total] at conserved
    exact conserved

/-- A stall of three periods: one activation, two overruns, and the phase kept. -/
theorem steady_timer_conserves_activations_stalled : ((steadyTimer 10 .skip ⟨0, 0, 0⟩).run
        [.advanceWithoutDispatch 25 ⟨0, 0, 0⟩, .tryProcess 7 ⟨0, 0, 0⟩]).activations +
          ((steadyTimer 10 .skip ⟨0, 0, 0⟩).run
            [.advanceWithoutDispatch 25 ⟨0, 0, 0⟩, .tryProcess 7 ⟨0, 0, 0⟩]).entry.overruns.toNat =
        (25 + 7) / 10 ∧
      ((steadyTimer 10 .skip ⟨0, 0, 0⟩).run
        [.advanceWithoutDispatch 25 ⟨0, 0, 0⟩, .tryProcess 7 ⟨0, 0, 0⟩]).entry.elapsedUs =
        (25 + 7) % 10 :=
  (steady_timer_conserves_activations 10 (by decide) ⟨0, 0, 0⟩
    [.advanceWithoutDispatch 25 ⟨0, 0, 0⟩, .tryProcess 7 ⟨0, 0, 0⟩] (by decide)).1
    [.advanceWithoutDispatch 25 ⟨0, 0, 0⟩] 7 ⟨0, 0, 0⟩ rfl (by decide)

end NanoRos
