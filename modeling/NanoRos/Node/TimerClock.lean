import NanoRos.Node.TimeArithmetic
import NanoRos.Node.Timer

/-! A timer on the ROS or the system clock. -/

namespace NanoRos

/-- A look at the timer: a dispatch, or the advance of a timer whose budget is exhausted. -/
structure ClockPoll where
  dispatch : Bool
  spinDeltaUs : Nat
  now : Time

def ClockPoll.clocks (poll : ClockPoll) : ClockReadings := ⟨0, poll.now.nanos, poll.now.nanos⟩

def ClockPoll.event (poll : ClockPoll) : TimerEvent :=
  if poll.dispatch then .tryProcess poll.spinDeltaUs poll.clocks
  else .advanceWithoutDispatch poll.spinDeltaUs poll.clocks

/-- A repeating timer on a clock that reads `start`, before its first poll. -/
def clockTimer (source : TimerClockSource) (periodUs : Nat) (start : Time) : TimerRun where
  entry := registerTimer periodUs false true source ⟨0, start.nanos, start.nanos⟩
  totalUs := 0
  activations := 0

def Forward : Time → List ClockPoll → Prop
  | _, [] => True
  | before, poll :: polls => before.nanos ≤ poll.now.nanos ∧ Forward poll.now polls

instance decidableForward : (before : Time) → (polls : List ClockPoll) →
    Decidable (Forward before polls)
  | _, [] => inferInstanceAs (Decidable True)
  | _, poll :: polls =>
    have := decidableForward poll.now polls
    inferInstanceAs (Decidable (_ ∧ _))

def lastReading : Time → List ClockPoll → Time
  | before, [] => before
  | _, poll :: polls => lastReading poll.now polls

/-- The whole microseconds of the steps so far, those that a dispatch has seen, and the dispatches
that found the end of a period in them. -/
structure ClockLedger where
  countedUs : Nat
  servedUs : Nat
  completions : Nat

def stepUs (before now : Time) : Nat := (now.nanos - before.nanos).toNat / 1000

def ClockLedger.poll (ledger : ClockLedger) (periodUs : Nat) (before : Time) (poll : ClockPoll) :
    ClockLedger :=
  let countedUs := ledger.countedUs + stepUs before poll.now
  if poll.dispatch then
    { countedUs := countedUs
      servedUs := countedUs
      completions := ledger.completions +
        if ledger.servedUs / periodUs < countedUs / periodUs then 1 else 0 }
  else { ledger with countedUs := countedUs }

def clockLedger (periodUs : Nat) : ClockLedger → Time → List ClockPoll → ClockLedger
  | ledger, _, [] => ledger
  | ledger, before, poll :: polls =>
    clockLedger periodUs (ledger.poll periodUs before poll) poll.now polls

/-- The timer goes by the ledger. -/
structure TimerRun.Keeps (timer : TimerRun) (periodUs : Nat) (source : TimerClockSource)
    (ledger : ClockLedger) (now : Time) : Prop where
  period : timer.entry.periodUs = periodUs
  repeats : timer.entry.oneshot = false
  armed : timer.entry.cancelled = false
  source : timer.entry.clockSource = source
  policy : timer.entry.overrunPolicy = .skip
  reading : timer.entry.lastClockNs = now.nanos
  elapsed : timer.entry.elapsedUs + periodUs * (ledger.servedUs / periodUs) = ledger.countedUs
  activations : timer.activations = ledger.completions
  missed : timer.entry.overruns.toNat = min (ledger.servedUs / periodUs - ledger.completions) u32Max
  completed : ledger.completions ≤ ledger.servedUs / periodUs

variable {timer : TimerRun} {periodUs : Nat} {source : TimerClockSource} {ledger : ClockLedger}
  {before : Time}

theorem nowNs_eq (clocked : source ≠ .steady) (steadyNs nanos : Int) :
    source.nowNs ⟨steadyNs, nanos, nanos⟩ = nanos := by
  cases source with
  | steady => exact absurd rfl clocked
  | ros => rfl
  | system => rfl

theorem keeps_start (clocked : source ≠ .steady) (start : Time) :
    (clockTimer source periodUs start).Keeps periodUs source ⟨0, 0, 0⟩ start := by
  refine ⟨rfl, rfl, rfl, rfl, rfl, nowNs_eq clocked 0 _, ?_, rfl, ?_, Nat.zero_le _⟩
  · simp [clockTimer, registerTimer]
  · simp [clockTimer, registerTimer]

theorem clockStep_eq (clocked : source ≠ .steady) (poll : ClockPoll)
    (forward : before.nanos ≤ poll.now.nanos) :
    timerClockStep source before.nanos poll.clocks poll.spinDeltaUs =
      (.advance (stepUs before poll.now), poll.now.nanos) := by
  have ahead : ¬ poll.now.nanos - before.nanos < 0 := by omega
  cases source with
  | steady => exact absurd rfl clocked
  | ros | system => simp [timerClockStep, TimerClockSource.nowNs, ClockPoll.clocks, stepUs, ahead]

/-- A poll moves the clock of the timer. -/
def TimerRun.advanced (timer : TimerRun) (before now : Time) : TimerEntry :=
  { timer.entry with
    lastClockNs := now.nanos
    elapsedUs := timer.entry.elapsedUs + stepUs before now }

section Poll

variable (clocked : source ≠ .steady) (keeps : timer.Keeps periodUs source ledger before)
  (poll : ClockPoll) (forward : before.nanos ≤ poll.now.nanos)
  (fits : ledger.countedUs + stepUs before poll.now ≤ u64Max)

include clocked keeps forward fits

theorem advance_eq : timerAdvanceWithoutDispatch timer.entry poll.clocks poll.spinDeltaUs =
    timer.advanced before poll.now := by
  have elapsed := keeps.elapsed
  rw [timerAdvanceWithoutDispatch, keeps.source, keeps.reading, clockStep_eq clocked poll forward]
  dsimp only
  rw [saturatingAdd64_eq _ _ (by omega), TimerRun.advanced, keeps.source]

theorem tryProcess_waits (early : timer.entry.elapsedUs + stepUs before poll.now < periodUs) :
    timerTryProcess (fun _ entry => entry) timer.entry poll.clocks poll.spinDeltaUs =
      (none, timer.advanced before poll.now) := by
  have elapsed := keeps.elapsed
  simp only [timerTryProcess, keeps.armed, keeps.repeats, keeps.source, keeps.reading,
    keeps.period, clockStep_eq clocked poll forward]
  rw [saturatingAdd64_eq _ _ (by omega)]
  simp [Nat.not_le.mpr early, TimerRun.advanced, keeps.source, keeps.period, keeps.armed,
    keeps.repeats]

theorem tryProcess_fires (due : periodUs ≤ timer.entry.elapsedUs + stepUs before poll.now) :
    ∃ info, timerTryProcess (fun _ entry => entry) timer.entry poll.clocks poll.spinDeltaUs =
      (some info, timerSettle (timer.advanced before poll.now)) := by
  have elapsed := keeps.elapsed
  simp only [timerTryProcess, keeps.armed, keeps.repeats, keeps.source, keeps.reading,
    keeps.period, clockStep_eq clocked poll forward]
  rw [saturatingAdd64_eq _ _ (by omega)]
  simp [due, TimerRun.advanced, keeps.source, keeps.period, keeps.armed, keeps.repeats]

end Poll

section

variable (keeps : timer.Keeps periodUs source ledger before)
include keeps

variable (now : Time)

theorem keeps_waiting (totalUs served : Nat)
    (settled : served / periodUs = ledger.servedUs / periodUs) :
    TimerRun.Keeps ⟨timer.advanced before now, totalUs, timer.activations⟩ periodUs source
      ⟨ledger.countedUs + stepUs before now, served, ledger.completions⟩ now := by
  have elapsed := keeps.elapsed
  refine ⟨keeps.period, keeps.repeats, keeps.armed, keeps.source, keeps.policy, rfl, ?_,
    keeps.activations, ?_, ?_⟩
  · simp only [TimerRun.advanced, settled]
    omega
  · simp only [TimerRun.advanced, settled]
    exact keeps.missed
  · simp only [settled]
    exact keeps.completed

theorem elapsed_advanced :
    (timer.advanced before now).elapsedUs + periodUs * (ledger.servedUs / periodUs) =
      ledger.countedUs + stepUs before now := by
  have elapsed := keeps.elapsed
  change timer.entry.elapsedUs + stepUs before now + _ = _
  omega

theorem periods_ended (positive : 1 ≤ periodUs) :
    (ledger.countedUs + stepUs before now) / periodUs =
      (timer.advanced before now).elapsedUs / periodUs + ledger.servedUs / periodUs := by
  rw [← elapsed_advanced keeps now, Nat.add_mul_div_left _ _ positive]

theorem keeps_fired (totalUs : Nat) (positive : 1 ≤ periodUs)
    (due : periodUs ≤ (timer.advanced before now).elapsedUs) :
    TimerRun.Keeps ⟨timerSettle (timer.advanced before now), totalUs, timer.activations + 1⟩
      periodUs source ⟨ledger.countedUs + stepUs before now,
        ledger.countedUs + stepUs before now, ledger.completions + 1⟩ now := by
  rcases @timerSettle_skip (timer.advanced before now) periodUs keeps.period keeps.repeats
    keeps.policy positive with ⟨overruns, settled, counted⟩
  have ended := periods_ended keeps now positive
  have some_ : 1 ≤ (timer.advanced before now).elapsedUs / periodUs :=
    (Nat.one_le_div_iff positive).mpr due
  have elapsed := elapsed_advanced keeps now
  have parts := Nat.div_add_mod (timer.advanced before now).elapsedUs periodUs
  have missed := keeps.missed
  have completed := keeps.completed
  rw [settled]
  refine ⟨keeps.period, keeps.repeats, keeps.armed, keeps.source, keeps.policy, rfl, ?_, ?_, ?_, ?_⟩
  · dsimp only
    rw [ended, Nat.mul_add]
    omega
  · exact congrArg (· + 1) keeps.activations
  · dsimp only
    rw [counted, ended]
    change min (timer.entry.overruns.toNat + _) _ = _
    omega
  · dsimp only
    omega

end

theorem keeps_poll (clocked : source ≠ .steady) (positive : 1 ≤ periodUs)
    (keeps : timer.Keeps periodUs source ledger before) (poll : ClockPoll)
    (forward : before.nanos ≤ poll.now.nanos)
    (fits : ledger.countedUs + stepUs before poll.now ≤ u64Max) :
    (timer.step poll.event).Keeps periodUs source (ledger.poll periodUs before poll) poll.now := by
  have ended := periods_ended keeps poll.now positive
  rw [ClockPoll.event, ClockLedger.poll]
  cases poll.dispatch with
  | false =>
    simp only [TimerRun.step, advance_eq clocked keeps poll forward fits, if_false,
      Bool.false_eq_true]
    exact keeps_waiting keeps poll.now _ _ rfl
  | true =>
    by_cases due : periodUs ≤ (timer.advanced before poll.now).elapsedUs
    · rcases tryProcess_fires clocked keeps poll forward fits due with ⟨info, fired⟩
      have some_ : 1 ≤ (timer.advanced before poll.now).elapsedUs / periodUs :=
        (Nat.one_le_div_iff positive).mpr due
      simp only [TimerRun.step, if_true, fired]
      rw [if_pos (by omega)]
      exact keeps_fired keeps poll.now _ positive due
    · have early := Nat.not_le.mp due
      have none_ := Nat.div_eq_of_lt early
      simp only [TimerRun.step, if_true, tryProcess_waits clocked keeps poll forward fits early]
      rw [if_neg (by omega)]
      exact keeps_waiting keeps poll.now _ _ (by omega)

theorem counted_poll {start : Time} (poll : ClockPoll) (forward : before.nanos ≤ poll.now.nanos)
    (within : (ledger.countedUs : Int) * 1000 ≤ before.nanos - start.nanos) :
    ((ledger.poll periodUs before poll).countedUs : Int) * 1000 ≤ poll.now.nanos - start.nanos ∧
      ledger.countedUs + stepUs before poll.now ≤ u64Max := by
  have counted : (ledger.poll periodUs before poll).countedUs =
      ledger.countedUs + stepUs before poll.now := by
    rw [ClockLedger.poll]
    cases poll.dispatch <;> rfl
  have low : -2 ^ 31 * 10 ^ 9 ≤ start.nanos := (nanosOf_bounds start.sec start.nanosec).1
  have high : poll.now.nanos < 2 ^ 31 * 10 ^ 9 + 2 ^ 32 :=
    (nanosOf_bounds poll.now.sec poll.now.nanosec).2
  rw [counted, stepUs, u64Max]
  omega

theorem keeps_run (clocked : source ≠ .steady) (positive : 1 ≤ periodUs) {start : Time}
    {polls : List ClockPoll} (keeps : timer.Keeps periodUs source ledger before)
    (within : (ledger.countedUs : Int) * 1000 ≤ before.nanos - start.nanos)
    (forward : Forward before polls) : (timer.run (polls.map ClockPoll.event)).Keeps periodUs source
        (clockLedger periodUs ledger before polls) (lastReading before polls) ∧
      ((clockLedger periodUs ledger before polls).countedUs : Int) * 1000 ≤
        (lastReading before polls).nanos - start.nanos := by
  induction polls generalizing timer ledger before with
  | nil => exact ⟨keeps, within⟩
  | cons poll polls ih =>
    rcases counted_poll poll forward.1 within with ⟨next, fits⟩
    exact ih (keeps_poll clocked positive keeps poll forward.1 fits) next forward.2

def clockRun (source : TimerClockSource) (periodUs : Nat) (start : Time) (polls : List ClockPoll) :
    TimerRun :=
  (clockTimer source periodUs start).run (polls.map ClockPoll.event)

/-- The nanoseconds the clock has moved. -/
def elapsedNs (start : Time) (polls : List ClockPoll) : Nat :=
  ((lastReading start polls).nanos - start.nanos).toNat

theorem div_eq_div_iff_lost (served total periodUs : Nat) (positive : 1 ≤ periodUs)
    (below : served / periodUs ≤ total / periodUs) :
    served / periodUs = total / periodUs ↔ total - served ≤ total % periodUs := by
  have parts := Nat.div_add_mod total periodUs
  constructor
  · intro same
    have whole := Nat.div_mul_le_self served periodUs
    rw [same, Nat.mul_comm] at whole
    omega
  · intro lost
    apply Nat.le_antisymm below
    rw [Nat.le_div_iff_mul_le positive, Nat.mul_comm]
    omega

/-- A timer of either clock, polled in any way: the periods of the clock are accounted for exactly
if the microseconds that no dispatch has taken in fit in the rest of the last period, and the
periods without an activation in a `u32`. -/
theorem clock_timer_follows_iff (source : TimerClockSource) (clocked : source ≠ .steady)
    (periodUs : Nat) (positive : 1 ≤ periodUs) (start : Time) (polls : List ClockPoll)
    (forward : Forward start polls) : (clockRun source periodUs start polls).activations +
          (clockRun source periodUs start polls).entry.overruns.toNat =
        elapsedNs start polls / (1000 * periodUs) ↔
      elapsedNs start polls / 1000 - (clockLedger periodUs ⟨0, 0, 0⟩ start polls).servedUs ≤
          elapsedNs start polls / 1000 % periodUs ∧
        (clockLedger periodUs ⟨0, 0, 0⟩ start polls).servedUs / periodUs ≤
          (clockLedger periodUs ⟨0, 0, 0⟩ start polls).completions + u32Max := by
  have nothing : ((ClockLedger.mk 0 0 0).countedUs : Int) * 1000 ≤ start.nanos - start.nanos := by
    simp
  rcases keeps_run clocked positive (keeps_start clocked start) nothing forward with
    ⟨keeps, within⟩
  generalize clockLedger periodUs ⟨0, 0, 0⟩ start polls = ledger at *
  have counted : ledger.countedUs ≤ elapsedNs start polls / 1000 := by
    rw [elapsedNs]
    omega
  have below : ledger.servedUs / periodUs ≤ elapsedNs start polls / 1000 / periodUs := by
    rw [Nat.le_div_iff_mul_le positive, Nat.mul_comm]
    have elapsed := keeps.elapsed
    omega
  rw [← Nat.div_div_eq_div_mul, clockRun, keeps.activations, keeps.missed,
    ← div_eq_div_iff_lost _ _ _ positive below]
  have completed := keeps.completed
  omega

def pollAt (nanosec : UInt32) : ClockPoll := ⟨true, 0, ⟨0, nanosec⟩⟩

/-- Two readings that cut a period of 2 us at a whole microsecond. -/
theorem clock_timer_follows_whole :
    (clockRun .ros 2 ⟨0, 0⟩ [pollAt 1000, pollAt 4500]).activations +
        (clockRun .ros 2 ⟨0, 0⟩ [pollAt 1000, pollAt 4500]).entry.overruns.toNat = 4500 / 2000 :=
  (clock_timer_follows_iff .ros (by decide) 2 (by decide) ⟨0, 0⟩ [pollAt 1000, pollAt 4500]
    (by decide)).mpr ⟨by decide, by decide⟩

/-- A clock that is looked at twice in a microsecond stands still for the timer. -/
theorem clock_timer_loses_steps :
    ¬ ∀ (source : TimerClockSource) (periodUs : Nat) (start : Time) (polls : List ClockPoll),
      source ≠ .steady → 1 ≤ periodUs → Forward start polls →
      (clockRun source periodUs start polls).activations +
          (clockRun source periodUs start polls).entry.overruns.toNat =
        elapsedNs start polls / (1000 * periodUs) := by
  intro all
  have counts := all .ros 1 ⟨0, 0⟩ [pollAt 500, pollAt 1000] (by decide) (by decide) (by decide)
  exact absurd counts (by decide)

end NanoRos
