import NanoRos.Node.RateMonitor

/-! How long the rate rule takes to notice that a publisher stopped, against what the hazard budget
charges for it. -/

namespace NanoRos.RateRun

/-- `RATE_DETECTION_MS`, two whole windows. -/
def rateDetectionMs : Nat := 2 * 5_000

def tickTimes : List Event → List Nat
  | [] => []
  | .publish _ :: events => tickTimes events
  | .tick time :: events => time :: tickTimes events

/-- Consecutive ticks at most `d` microseconds apart. -/
def Spaced (d : Nat) (times : List Nat) : Prop :=
  times.IsChain fun earlier later => later ≤ earlier + d

/-- One of the ticks, at the bound or before, finds the stream slow and reports it unless that was
done before; from then on the stream counts as violated. -/
def Detects (spec : MonitorSpec) (w : RateRun) (times : List Nat) (bound : Nat) : Prop :=
  ∃ first t rest before after, times = first ++ t :: rest ∧ t ≤ bound ∧
    run (step spec) w (first.map .tick) = some before ∧ step spec before (.tick t) = some after ∧
    after.state.violatedLastWindow = true ∧
    (before.state.violatedLastWindow = false → ∃ record verdict, after.log.head? = some record ∧
      record.verdict = some verdict) ∧
    ∀ more last, more <+: rest → run (step spec) after (more.map .tick) = some last →
      last.state.violatedLastWindow = true

/-- Whenever the count stops changing at `s`, at the opening tick or later, and the ticks go on at
most `d` apart, two windows and two delays are enough. -/
def DetectsStops (spec : MonitorSpec) : Prop :=
  ∀ (d s : Nat) (count : UInt32) (events : List Event) (times : List Nat) (w last : RateRun),
    run (step spec) (init count) events = some w → w.opening.isSome = true → w.clock ≤ s →
    run (step spec) w (times.map .tick) = some last → Spaced d (tickTimes events ++ times) →
    (∃ t ∈ times, s + 2 * (rateCheckIntervalUs + d) ≤ t) →
    Detects spec w times (s + 2 * (rateCheckIntervalUs + d))

variable {spec : MonitorSpec} {w next : RateRun} {time : Nat}

theorem tick_state (stepped : step spec w (.tick time) = some next) :
    w.clock ≤ time ∧ next.clock = time ∧ next.count = w.count ∧
      next.state = (checkRate spec w.state w.count time).2 ∧
      ∃ record, next.log.head? = some record ∧
        record.verdict = (checkRate spec w.state w.count time).1 := by
  rw [step] at stepped
  split at stepped
  · cases stepped
  · cases stepped
    exact ⟨by omega, rfl, rfl, rfl, _, rfl, rfl⟩

/-- No publish in the open window. -/
def Settled (w : RateRun) : Prop :=
  w.state.opened = true ∧ w.state.countAtWindowStart = w.count

/-- A window that stays where it is until it is whole. -/
def Waiting (w : RateRun) : Prop :=
  w.state.opened = true ∧ (w.state.aligned = true ∨ w.count = w.state.countAtWindowStart)

theorem Settled.waiting (settled : Settled w) : Waiting w := ⟨settled.1, .inr settled.2.symm⟩

theorem tick_early (armed : spec.minRateHzMilli ≠ 0) (waiting : Waiting w)
    (early : time < w.state.windowStartUs + rateCheckIntervalUs)
    (stepped : step spec w (.tick time) = some next) :
    next.state = w.state ∧ next.count = w.count := by
  obtain ⟨-, -, count, state, -⟩ := tick_state stepped
  have positive : 0 < rateCheckIntervalUs := by decide
  rw [state, checkRate_waits armed waiting.1 (by omega) waiting.2]
  exact ⟨rfl, count⟩

theorem judgeWindow_state (spec : MonitorSpec) (state : MonitorState) (published windowUs : Nat) :
    (judgeWindow spec state published windowUs).2.opened = state.opened ∧
      (judgeWindow spec state published windowUs).2.windowStartUs = state.windowStartUs ∧
      (judgeWindow spec state published windowUs).2.countAtWindowStart =
        state.countAtWindowStart := by
  rw [judgeWindow]
  split_ifs <;> exact ⟨rfl, rfl, rfl⟩

theorem judgeWindow_silent (seen : 200 ≤ spec.minRateHzMilli.toNat) (state : MonitorState)
    {windowUs : Nat} (whole : rateCheckIntervalUs ≤ windowUs) :
    (judgeWindow spec state 0 windowUs).2.violatedLastWindow = true ∧
      (state.violatedLastWindow = false → ∃ verdict,
        (judgeWindow spec state 0 windowUs).1 = some verdict) := by
  have required : 0 < saturatingMul spec.minRateHzMilli.toNat windowUs / microsPerMilliHz := by
    apply Nat.div_pos
    · have product : 200 * rateCheckIntervalUs ≤ spec.minRateHzMilli.toNat * windowUs :=
        Nat.mul_le_mul seen whole
      rw [saturatingMul, le_min_iff]
      exact ⟨le_trans (by decide) product, by decide⟩
    · decide
  rw [judgeWindow]
  simp only [if_pos required]
  cases violated : state.violatedLastWindow with
  | false => exact ⟨rfl, fun _ => ⟨_, rfl⟩⟩
  | true => exact ⟨violated, fun clear => by cases clear⟩

section

variable (armed : spec.minRateHzMilli ≠ 0)
include armed

theorem tick_closes (opened : w.state.opened = true)
    (late : w.state.windowStartUs + rateCheckIntervalUs ≤ time)
    (stepped : step spec w (.tick time) = some next) :
    Settled next ∧ next.state.windowStartUs = time ∧
      (Settled w → 200 ≤ spec.minRateHzMilli.toNat → next.state.violatedLastWindow = true ∧
        (w.state.violatedLastWindow = false → ∃ record verdict, next.log.head? = some record ∧
          record.verdict = some verdict)) := by
  obtain ⟨-, -, count, state, record, logged, verdict⟩ := tick_state stepped
  have whole : rateCheckIntervalUs ≤ time - w.state.windowStartUs := by omega
  rw [checkRate_judges armed opened whole] at state verdict
  obtain ⟨opened', start, counted⟩ := judgeWindow_state spec
    { w.state with aligned := true, windowStartUs := time, countAtWindowStart := w.count }
    (w.count - w.state.countAtWindowStart).toNat (time - w.state.windowStartUs)
  rw [← state] at opened' start counted
  refine ⟨⟨opened'.trans opened, by rw [count]; exact counted⟩, start, ?_⟩
  intro settled seen
  have none_ : (w.count - w.state.countAtWindowStart).toNat = 0 := by
    rw [settled.2, UInt32.sub_self]
    rfl
  rw [none_] at state verdict
  obtain ⟨violated, reported⟩ := judgeWindow_silent seen
    { w.state with aligned := true, windowStartUs := time, countAtWindowStart := w.count } whole
  refine ⟨by rw [state]; exact violated, ?_⟩
  intro clean
  obtain ⟨found, isFound⟩ := reported clean
  exact ⟨record, found, logged, verdict.trans isFound⟩

theorem run_early {times : List Nat} (waiting : Waiting w)
    (early : ∀ t ∈ times, t < w.state.windowStartUs + rateCheckIntervalUs)
    (reached : run (step spec) w (times.map .tick) = some next) :
    next.state = w.state ∧ next.count = w.count := by
  induction times generalizing w with
  | nil =>
    cases reached
    exact ⟨rfl, rfl⟩
  | cons t times ih =>
    rw [List.forall_mem_cons] at early
    obtain ⟨middle, stepped, rest⟩ := Option.bind_eq_some_iff.mp reached
    obtain ⟨state, count⟩ := tick_early armed waiting early.1 stepped
    have waiting' : Waiting middle := by rwa [Waiting, state, count]
    obtain ⟨state', count'⟩ := ih waiting' (by rw [state]; exact early.2) rest
    exact ⟨state'.trans state, count'.trans count⟩

theorem violated_stays (seen : 200 ≤ spec.minRateHzMilli.toNat) {times : List Nat}
    (settled : Settled w) (violated : w.state.violatedLastWindow = true)
    (reached : run (step spec) w (times.map .tick) = some next) :
    next.state.violatedLastWindow = true := by
  induction times generalizing w with
  | nil =>
    cases reached
    exact violated
  | cons t times ih =>
    obtain ⟨middle, stepped, rest⟩ := Option.bind_eq_some_iff.mp reached
    by_cases early : t < w.state.windowStartUs + rateCheckIntervalUs
    · obtain ⟨state, count⟩ := tick_early armed settled.waiting early stepped
      apply ih _ _ rest
      · rwa [Settled, state, count]
      · rwa [state]
    · obtain ⟨settled', -, judged⟩ := tick_closes armed settled.1 (Nat.not_lt.mp early) stepped
      exact ih settled' (judged settled seen).1 rest

end

theorem Spaced.tail {d a : Nat} {first rest : List Nat} {t : Nat}
    (spaced : Spaced d (a :: (first ++ t :: rest))) : Spaced d (t :: rest) := by
  rw [Spaced, ← List.cons_append] at spaced
  exact (List.isChain_append.mp spaced).2.1

theorem first_past {d a x : Nat} {times : List Nat} (spaced : Spaced d (a :: times)) (before : a < x)
    (past : ∃ t ∈ times, x ≤ t) :
    ∃ first t rest, times = first ++ t :: rest ∧ (∀ u ∈ first, u < x) ∧ x ≤ t ∧ t ≤ x + d := by
  induction times generalizing a with
  | nil =>
    obtain ⟨t, member, -⟩ := past
    cases member
  | cons u times ih =>
    obtain ⟨near, spaced'⟩ := List.isChain_cons_cons.mp spaced
    by_cases below : u < x
    · have past' : ∃ t ∈ times, x ≤ t := by
        obtain ⟨t, member, late⟩ := past
        obtain rfl | member := List.mem_cons.mp member
        · omega
        · exact ⟨t, member, late⟩
      obtain ⟨first, t, rest, rfl, early, late, near'⟩ := ih spaced' below past'
      exact ⟨u :: first, t, rest, rfl, List.forall_mem_cons.mpr ⟨below, early⟩, late, near'⟩
    · exact ⟨[], u, times, rfl, List.forall_mem_nil _, Nat.not_lt.mp below, by omega⟩

/-- Where the last tick left the window. -/
def Placed (w : RateRun) (l : Nat) : Prop :=
  w.state.opened = true ∧ w.state.windowStartUs ≤ l ∧
    l < w.state.windowStartUs + rateCheckIntervalUs ∧ l ≤ w.clock

theorem tick_placed (armed : spec.minRateHzMilli ≠ 0)
    (placed : (∃ l, Placed w l) ∨ w.state.opened = false)
    (stepped : step spec w (.tick time) = some next) : Placed next time := by
  obtain ⟨clock, clock', -, state, -⟩ := tick_state stepped
  have positive : 0 < rateCheckIntervalUs := by decide
  rw [Placed, clock', state]
  obtain ⟨l, opened, start, near, old⟩ | unopened := placed
  · by_cases late : w.state.windowStartUs + rateCheckIntervalUs ≤ time
    · obtain ⟨settled, start', -⟩ := tick_closes armed opened late stepped
      rw [← state]
      exact ⟨settled.1, by omega, by omega, le_rfl⟩
    · have early : time - w.state.windowStartUs < rateCheckIntervalUs := by omega
      by_cases still : w.state.aligned = true ∨ w.count = w.state.countAtWindowStart
      · rw [checkRate_waits armed opened early still]
        exact ⟨opened, by dsimp only; omega, by dsimp only; omega, le_rfl⟩
      · obtain ⟨unaligned, moved⟩ := not_or.mp still
        rw [checkRate_anchors armed opened early unaligned moved]
        exact ⟨opened, le_rfl, by dsimp only; omega, le_rfl⟩
  · rw [checkRate_opens armed unopened]
    exact ⟨rfl, le_rfl, by dsimp only; omega, le_rfl⟩

theorem tickTimes_append (first second : List Event) :
    tickTimes (first ++ second) = tickTimes first ++ tickTimes second := by
  induction first with
  | nil => rfl
  | cons e first ih =>
    cases e with
    | publish time => exact ih
    | tick time => exact congrArg (time :: ·) ih

/-- Before the opening tick the monitor is closed; after it the last tick left a window that is not
due. -/
theorem run_placed (armed : spec.minRateHzMilli ≠ 0) (count : UInt32) (events : List Event)
    {w : RateRun} (reached : run (step spec) (init count) events = some w) :
    (∃ l, (tickTimes events).getLast? = some l ∧ Placed w l) ∨
      w.state.opened = false ∧ w.opening = none := by
  induction events using List.reverseRecOn generalizing w with
  | nil =>
    cases reached
    exact .inr ⟨rfl, rfl⟩
  | append_singleton events e ih =>
    rw [run_append] at reached
    obtain ⟨before, reached', stepped⟩ := Option.bind_eq_some_iff.mp reached
    obtain ⟨next, stepped, done⟩ := Option.bind_eq_some_iff.mp stepped
    cases done
    rw [tickTimes_append]
    cases e with
    | publish time =>
      obtain ⟨clock, rfl⟩ := step_publish time stepped
      rw [tickTimes, tickTimes, List.append_nil]
      obtain ⟨l, last, opened, start, near, old⟩ | closed := ih reached'
      · exact .inl ⟨l, last, opened, start, near, old.trans clock⟩
      · exact .inr closed
    | tick time =>
      left
      refine ⟨time, List.getLast?_concat, ?_⟩
      obtain ⟨l, -, placed⟩ | ⟨closed, -⟩ := ih reached'
      · exact tick_placed armed (.inl ⟨l, placed⟩) stepped
      · exact tick_placed armed (.inr closed) stepped

theorem run_split {first rest : List Nat} {t : Nat} {last : RateRun}
    (reached : run (step spec) w ((first ++ t :: rest).map .tick) = some last) :
    ∃ before after, run (step spec) w (first.map .tick) = some before ∧
      step spec before (.tick t) = some after ∧
      run (step spec) w ((first ++ [t]).map .tick) = some after ∧
      run (step spec) after (rest.map .tick) = some last := by
  rw [List.map_append, run_append] at reached
  obtain ⟨before, reached', later⟩ := Option.bind_eq_some_iff.mp reached
  obtain ⟨after, stepped, rest'⟩ := Option.bind_eq_some_iff.mp later
  refine ⟨before, after, reached', stepped, ?_, rest'⟩
  rw [List.map_append, run_append, reached']
  exact Option.bind_eq_some_iff.mpr
    ⟨before, rfl, Option.bind_eq_some_iff.mpr ⟨after, stepped, rfl⟩⟩

section

variable (armed : spec.minRateHzMilli ≠ 0)
include armed

theorem settles {d s l : Nat} {times : List Nat} {last : RateRun} (placed : Placed w l)
    (stopped : l ≤ s) (spaced : Spaced d (l :: times))
    (past : ∃ t ∈ times, s + 2 * (rateCheckIntervalUs + d) ≤ t)
    (reached : run (step spec) w (times.map .tick) = some last) :
    ∃ first rest middle l', times = first ++ rest ∧
      run (step spec) w (first.map .tick) = some middle ∧ Settled middle ∧
      Placed middle l' ∧ middle.state.windowStartUs ≤ s + rateCheckIntervalUs + d ∧
      Spaced d (l' :: rest) ∧ ∃ t ∈ rest, s + 2 * (rateCheckIntervalUs + d) ≤ t := by
  have positive : 0 < rateCheckIntervalUs := by decide
  -- the tick `t` starts a window at its own time
  have starts : ∀ first t rest, times = first ++ t :: rest → (∀ u ∈ first, u ≤ t) →
      t ≤ s + rateCheckIntervalUs + d → (∀ before after,
        run (step spec) w (first.map .tick) = some before →
        step spec before (.tick t) = some after →
          Settled after ∧ Placed after t ∧ after.state.windowStartUs = t) →
      ∃ first rest middle l', times = first ++ rest ∧
        run (step spec) w (first.map .tick) = some middle ∧ Settled middle ∧
        Placed middle l' ∧ middle.state.windowStartUs ≤ s + rateCheckIntervalUs + d ∧
        Spaced d (l' :: rest) ∧ ∃ t ∈ rest, s + 2 * (rateCheckIntervalUs + d) ≤ t := by
    rintro first t rest rfl early near settle
    obtain ⟨before, after, reached', stepped, reached'', -⟩ := run_split reached
    obtain ⟨settled, placed', start⟩ := settle before after reached' stepped
    refine ⟨first ++ [t], rest, after, t, by simp, reached'', settled, placed', by omega,
      spaced.tail, ?_⟩
    obtain ⟨u, member, late⟩ := past
    obtain old | member := List.mem_append.mp member
    · have before := early u old
      omega
    · obtain rfl | member := List.mem_cons.mp member
      · omega
      · exact ⟨u, member, late⟩
  obtain ⟨opened, start, due, -⟩ := id placed
  by_cases settled : w.state.countAtWindowStart = w.count
  · exact ⟨[], times, w, l, rfl, rfl, ⟨opened, settled⟩, placed, by omega, spaced, past⟩
  · by_cases aligned : w.state.aligned = true
    · obtain ⟨t, member, late⟩ := past
      obtain ⟨first, t, rest, rfl, early, late, near⟩ := first_past spaced due ⟨t, member, by omega⟩
      apply starts first t rest rfl (fun u member => ((early u member).trans_le late).le) (by omega)
      intro before after reached' stepped
      obtain ⟨state, count⟩ := run_early armed ⟨opened, .inl aligned⟩ early reached'
      have opened' : before.state.opened = true := by rwa [state]
      obtain ⟨settled', start', -⟩ := tick_closes armed opened' (by rwa [state]) stepped
      obtain ⟨-, clock, -⟩ := tick_state stepped
      exact ⟨settled', ⟨settled'.1, start'.le, by omega, clock.ge⟩, start'⟩
    · cases times with
      | nil =>
        obtain ⟨t, member, -⟩ := past
        cases member
      | cons t times =>
        have near := (List.isChain_cons_cons.mp spaced).1
        apply starts [] t times rfl (List.forall_mem_nil _) (by omega)
        intro before after reached' stepped
        cases reached'
        obtain ⟨-, clock, count, state, -⟩ := tick_state stepped
        by_cases late : w.state.windowStartUs + rateCheckIntervalUs ≤ t
        · obtain ⟨settled', start', -⟩ := tick_closes armed opened late stepped
          exact ⟨settled', ⟨settled'.1, start'.le, by omega, clock.ge⟩, start'⟩
        · have early : t - w.state.windowStartUs < rateCheckIntervalUs := by omega
          rw [checkRate_anchors armed opened early aligned fun same => settled same.symm] at state
          rw [Settled, Placed, state, count, clock]
          exact ⟨⟨opened, rfl⟩, ⟨opened, le_rfl, by dsimp only; omega, le_rfl⟩, rfl⟩

theorem stop_detected (seen : 200 ≤ spec.minRateHzMilli.toNat) :
    DetectsStops spec := by
  intro d s count events times w last reached opening stopped ticked spaced past
  obtain ⟨l, isLast, placed⟩ | ⟨-, closed⟩ := run_placed armed count events reached
  · have spaced' : Spaced d (l :: times) := by
      obtain ⟨before, split⟩ := List.getLast?_eq_some_iff.mp isLast
      rw [Spaced, split, List.append_assoc] at spaced
      exact (List.isChain_append.mp spaced).2.1
    obtain ⟨first, rest, middle, l', rfl, reached', settled, placed', soon, spaced', past'⟩ :=
      settles armed placed (placed.2.2.2.trans stopped) spaced' past ticked
    rw [List.map_append, run_append, reached'] at ticked
    obtain ⟨u, member, late⟩ := past'
    obtain ⟨second, t, more, rfl, early, due, near⟩ :=
      first_past spaced' placed'.2.2.1 ⟨u, member, by omega⟩
    obtain ⟨before, after, reached'', stepped, -, -⟩ := run_split ticked
    obtain ⟨state, count'⟩ := run_early armed settled.waiting early reached''
    have settled' : Settled before := by rwa [Settled, state, count']
    obtain ⟨settledAfter, -, judged⟩ := tick_closes armed settled'.1 (by rwa [state]) stepped
    obtain ⟨violated, reported⟩ := judged settled' seen
    refine ⟨first ++ second, t, more, before, after, by simp, by omega, ?_, stepped, violated,
      reported, ?_⟩
    · rw [List.map_append, run_append, reached']
      exact reached''
    · intro later last' _ reachedLater
      exact violated_stays armed seen settledAfter violated reachedLater
  · rw [closed] at opening
    cases opening

def beats (start : Nat) : Nat → List Nat
  | 0 => []
  | n + 1 => (start + rateCheckIntervalUs) :: beats (start + rateCheckIntervalUs) n

section

variable (unseen : spec.minRateHzMilli.toNat < 200)
include unseen

theorem beat_unseen (settled : Settled w)
    (stepped : step spec w (.tick (w.state.windowStartUs + rateCheckIntervalUs)) = some next) :
    Settled next ∧ next.state.windowStartUs = w.state.windowStartUs + rateCheckIntervalUs ∧
      next.state.violatedLastWindow = false := by
  obtain ⟨settled', start, -⟩ := tick_closes armed settled.1 le_rfl stepped
  obtain ⟨-, -, -, state, -⟩ := tick_state stepped
  refine ⟨settled', start, ?_⟩
  have required : ∀ published, ¬ published <
      saturatingMul spec.minRateHzMilli.toNat rateCheckIntervalUs / microsPerMilliHz := by
    intro published
    have few : saturatingMul spec.minRateHzMilli.toNat rateCheckIntervalUs < microsPerMilliHz := by
      apply lt_of_le_of_lt (Nat.min_le_left _ _)
      rw [rateCheckIntervalUs, microsPerMilliHz]
      omega
    rw [Nat.div_eq_of_lt few]
    exact Nat.not_lt_zero _
  rw [state, checkRate_judges armed settled.1 (by omega), Nat.add_sub_cancel_left, judgeWindow]
  simp only [required, if_false]

theorem beats_unseen (n start : Nat) (settled : Settled w)
    (placed : w.state.windowStartUs = start ∧ w.clock = start) :
    (∃ last, run (step spec) w ((beats start n).map .tick) = some last) ∧
      ∀ first t rest before after, beats start n = first ++ t :: rest →
        run (step spec) w (first.map .tick) = some before → step spec before (.tick t) = some after →
        after.state.violatedLastWindow = false := by
  induction n generalizing w start with
  | zero =>
    refine ⟨⟨w, rfl⟩, fun first t rest before after split => ?_⟩
    exact absurd split.symm (by simp [beats])
  | succ n ih =>
    have forward : ¬ start + rateCheckIntervalUs < w.clock := by omega
    obtain ⟨next, stepped⟩ : ∃ next, step spec w (.tick (start + rateCheckIntervalUs)) =
        some next := by
      rw [step, if_neg forward]
      exact ⟨_, rfl⟩
    obtain ⟨-, clock, -⟩ := tick_state stepped
    rw [← placed.1] at stepped
    obtain ⟨settled', start', clean'⟩ := beat_unseen armed unseen settled stepped
    rw [placed.1] at stepped start'
    obtain ⟨⟨last, reached⟩, later⟩ := ih _ settled' ⟨start', clock⟩
    refine ⟨⟨last, ?_⟩, ?_⟩
    · exact Option.bind_eq_some_iff.mpr ⟨next, stepped, reached⟩
    · intro first t rest before after split reached' stepped'
      cases first with
      | nil =>
        obtain ⟨rfl, -⟩ := List.cons.inj split
        cases reached'
        rw [stepped] at stepped'
        cases stepped'
        exact clean'
      | cons u first =>
        obtain ⟨rfl, split'⟩ := List.cons.inj split
        obtain ⟨next', stepped'', rest'⟩ := Option.bind_eq_some_iff.mp reached'
        rw [stepped] at stepped''
        cases stepped''
        exact later first t rest before after split' rest' stepped'

theorem stop_missed :
    ¬ DetectsStops spec := by
  intro detects
  obtain ⟨w, stepped⟩ : ∃ w, step spec (init 0) (.tick 0) = some w := ⟨_, rfl⟩
  obtain ⟨-, clock, count, state, -⟩ := tick_state stepped
  rw [checkRate_opens armed rfl] at state
  have settled : Settled w := by
    rw [Settled, state, count]
    exact ⟨rfl, rfl⟩
  obtain ⟨⟨last, reached⟩, clean⟩ :=
    beats_unseen armed unseen 4 0 settled ⟨by rw [state], clock⟩
  obtain ⟨first, t, rest, before, after, split, -, reached', stepped', violated, -⟩ :=
    detects rateCheckIntervalUs 0 0 [.tick 0] (beats 0 4) w last
      (Option.bind_eq_some_iff.mpr ⟨w, stepped, rfl⟩) (by cases stepped; rfl) clock.le reached
      (by simp [Spaced, tickTimes, beats]) ⟨4 * rateCheckIntervalUs, by simp [beats]; omega, by omega⟩
  rw [clean first t rest before after split reached' stepped'] at violated
  cases violated

end

end

/-- The stops that are seen in time are exactly those of streams with a rate of at least one sample
in a window. -/
theorem detects_stops_iff (armed : spec.minRateHzMilli ≠ 0) :
    1000 * rateDetectionMs = 2 * rateCheckIntervalUs ∧
      (DetectsStops spec ↔ 200 ≤ spec.minRateHzMilli.toNat) := by
  refine ⟨rfl, ?_, stop_detected armed⟩
  intro detects
  by_contra unseen
  exact stop_missed armed (Nat.not_le.mp unseen) detects

theorem detects_stops_one_hertz : DetectsStops ⟨"/island/odom", 1000⟩ :=
  (detects_stops_iff (by decide)).2.mpr (by decide)

/-- A stream of one sample in ten seconds. -/
theorem slow_stop_missed :
    ¬ ∀ spec : MonitorSpec, spec.minRateHzMilli ≠ 0 → DetectsStops spec := by
  intro claim
  exact stop_missed (by decide) (by decide) (claim ⟨"/island/odom", 100⟩ (by decide))

end NanoRos.RateRun
