import NanoRos.Node.ViolationChannel

/-! The rate rule of the contract monitors (`check_rate`). -/

namespace NanoRos

structure MonitorSpec where
  fqn : String
  minRateHzMilli : UInt32

structure MonitorState where
  opened : Bool
  windowStartUs : Nat
  countAtWindowStart : UInt32
  violatedLastWindow : Bool
  aligned : Bool

def rateCheckIntervalUs : Nat := 5_000_000

/-- A rate of one milli-hertz is one sample in so many microseconds. -/
def microsPerMilliHz : Nat := 1_000_000_000

/-- The judgement of a window of `windowUs` that saw `published` samples. -/
def judgeWindow (spec : MonitorSpec) (state : MonitorState) (published windowUs : Nat) :
    Option Violation × MonitorState :=
  let measuredMilliHz := min (saturatingMul published microsPerMilliHz / max windowUs 1) u32Max
  let required := saturatingMul spec.minRateHzMilli.toNat windowUs / microsPerMilliHz
  if published < required then
    if state.violatedLastWindow then (none, state)
    else
      (some ⟨"rate-hierarchy-runtime", spec.fqn, UInt32.ofNat measuredMilliHz,
        spec.minRateHzMilli⟩, { state with violatedLastWindow := true })
  else (none, { state with violatedLastWindow := false })

/-- `count` is what the cell holds when the check loads it. -/
def checkRate (spec : MonitorSpec) (state : MonitorState) (count : UInt32) (nowUs : Nat) :
    Option Violation × MonitorState :=
  if spec.minRateHzMilli = 0 then (none, state)
  else if !state.opened then
    (none, { state with
      opened := true
      aligned := false
      windowStartUs := nowUs
      countAtWindowStart := count })
  else
    let windowUs := nowUs - state.windowStartUs
    if !state.aligned && windowUs < rateCheckIntervalUs then
      if count ≠ state.countAtWindowStart then
        (none, { state with
          aligned := true
          windowStartUs := nowUs
          countAtWindowStart := count })
      else (none, state)
    else
      let state := { state with aligned := true }
      if windowUs < rateCheckIntervalUs then (none, state)
      else
        let published := (count - state.countAtWindowStart).toNat
        let state := { state with windowStartUs := nowUs, countAtWindowStart := count }
        judgeWindow spec state published windowUs

section Branches

variable {spec : MonitorSpec} {state : MonitorState} {count : UInt32} {nowUs : Nat}
  (armed : spec.minRateHzMilli ≠ 0)
include armed

theorem checkRate_opens (unopened : state.opened = false) :
    checkRate spec state count nowUs = (none, { state with
      opened := true
      aligned := false
      windowStartUs := nowUs
      countAtWindowStart := count }) := by
  simp [checkRate, armed, unopened]

theorem checkRate_waits (opened : state.opened = true)
    (early : nowUs - state.windowStartUs < rateCheckIntervalUs)
    (still : state.aligned = true ∨ count = state.countAtWindowStart) :
    checkRate spec state count nowUs = (none, state) := by
  rcases state with ⟨_, start, counted, violated, aligned⟩
  cases opened
  cases aligned with
  | false =>
    have same := still.resolve_left Bool.false_ne_true
    simp [checkRate, armed, early, same]
  | true => simp [checkRate, armed, early]

theorem checkRate_anchors (opened : state.opened = true)
    (early : nowUs - state.windowStartUs < rateCheckIntervalUs) (unaligned : ¬ state.aligned = true)
    (moved : count ≠ state.countAtWindowStart) :
    checkRate spec state count nowUs = (none, { state with
      aligned := true
      windowStartUs := nowUs
      countAtWindowStart := count }) := by
  simp [checkRate, armed, opened, early, unaligned, moved]

theorem checkRate_judges (opened : state.opened = true)
    (late : rateCheckIntervalUs ≤ nowUs - state.windowStartUs) :
    checkRate spec state count nowUs = judgeWindow spec { state with
        aligned := true
        windowStartUs := nowUs
        countAtWindowStart := count }
      (count - state.countAtWindowStart).toNat (nowUs - state.windowStartUs) := by
  simp [checkRate, armed, opened, Nat.not_lt.mpr late]

end Branches

/-- What a tick returned, and the length and the publishes of the window it closed. -/
structure TickRecord where
  window : Option (Nat × Nat)
  verdict : Option Violation

structure RateRun where
  state : MonitorState
  count : UInt32
  clock : Nat
  published : Nat
  /-- The publishes before the open window. -/
  atStart : Nat
  opening : Option Nat
  firstPublish : Option Nat
  lastPublish : Option Nat
  /-- Newest first. -/
  log : List TickRecord

namespace RateRun

inductive Event where
  | publish (time : Nat)
  | tick (time : Nat)

def Event.time : Event → Nat
  | .publish time => time
  | .tick time => time

def init (count : UInt32) : RateRun where
  state := ⟨false, 0, 0, false, false⟩
  count := count
  clock := 0
  published := 0
  atStart := 0
  opening := none
  firstPublish := none
  lastPublish := none
  log := []

def inWindow (w : RateRun) : Nat := w.published - w.atStart

/-- A tick at `time` closes the open window. -/
def closes (w : RateRun) (time : Nat) : Bool :=
  w.state.opened && decide (rateCheckIntervalUs ≤ time - w.state.windowStartUs)

/-- A tick at `time` starts a window: it opens the first one, moves it onto the first sample, or
closes one. -/
def starts (w : RateRun) (time : Nat) : Bool :=
  !w.state.opened || w.closes time ||
    (!w.state.aligned && decide (w.count ≠ w.state.countAtWindowStart))

def step (spec : MonitorSpec) (w : RateRun) : Event → Option RateRun
  | .publish time =>
    if time < w.clock then none
    else some { w with
      count := w.count + 1
      clock := time
      published := w.published + 1
      firstPublish := some (w.firstPublish.getD time)
      lastPublish := some time }
  | .tick time =>
    if time < w.clock then none
    else
      let judged := checkRate spec w.state w.count time
      let window :=
        if w.closes time then some (time - w.state.windowStartUs, w.inWindow) else none
      some { w with
        state := judged.2
        clock := time
        atStart := if w.starts time then w.published else w.atStart
        opening := some (w.opening.getD time)
        log := ⟨window, judged.1⟩ :: w.log }

/-- Fewer publishes than a stream at the declared rate makes in a window of this length. -/
def slow (spec : MonitorSpec) (window : Nat × Nat) : Bool :=
  decide (window.2 < spec.minRateHzMilli.toNat * window.1 / microsPerMilliHz)

/-- Whether the last window that closed was slow. -/
def lastSlow (spec : MonitorSpec) : List TickRecord → Bool
  | [] => false
  | r :: older =>
    match r.window with
    | some window => slow spec window
    | none => lastSlow spec older

def violation (spec : MonitorSpec) (window : Nat × Nat) : Violation :=
  ⟨"rate-hierarchy-runtime", spec.fqn,
    UInt32.ofNat (min (window.2 * microsPerMilliHz / max window.1 1) u32Max), spec.minRateHzMilli⟩

/-- A tick reports exactly a slow window that comes first or after one that was not slow. -/
def Judged (spec : MonitorSpec) : List TickRecord → Prop
  | [] => True
  | r :: older =>
    (r.verdict = match r.window with
      | some window =>
        if slow spec window && !lastSlow spec older then some (violation spec window) else none
      | none => none) ∧ Judged spec older

/-- The `u32` of the cell has not gone once around in a window that closes. -/
def Few (w : RateRun) : Event → Prop
  | .publish _ => True
  | .tick time => w.closes time = true → w.inWindow < 2 ^ 32

/-- At most one declared period since the last publish; the first one comes within one check
interval of the opening tick. -/
def OnRate (spec : MonitorSpec) (w : RateRun) (e : Event) : Prop :=
  (∀ last ∈ w.lastPublish, spec.minRateHzMilli.toNat * (e.time - last) ≤ microsPerMilliHz) ∧
  (w.lastPublish = none → ∀ opened ∈ w.opening, e.time < opened + rateCheckIntervalUs)

/-- A window that closes without having been moved onto the stream began at most one period
before the first publish. -/
def Early (spec : MonitorSpec) (w : RateRun) : Event → Prop
  | .publish _ => True
  | .tick time => w.closes time = true → w.state.aligned = false →
      ∀ first ∈ w.firstPublish,
        spec.minRateHzMilli.toNat * (first - w.state.windowStartUs) ≤ microsPerMilliHz

/-- No window with `n` publishes is exactly `n + 1` periods long. -/
def OffBeat (spec : MonitorSpec) (w : RateRun) : Event → Prop
  | .publish _ => True
  | .tick time => w.closes time = true →
      spec.minRateHzMilli.toNat * (time - w.state.windowStartUs) ≠
        (w.inWindow + 1) * microsPerMilliHz

instance (w : RateRun) : ∀ e, Decidable (w.Few e)
  | .publish _ => isTrue trivial
  | .tick time => inferInstanceAs (Decidable (w.closes time = true → w.inWindow < 2 ^ 32))

instance (spec : MonitorSpec) (w : RateRun) (e : Event) : Decidable (w.OnRate spec e) :=
  inferInstanceAs (Decidable (_ ∧ _))

instance (spec : MonitorSpec) (w : RateRun) : ∀ e, Decidable (w.Early spec e)
  | .publish _ => isTrue trivial
  | .tick time => inferInstanceAs (Decidable (w.closes time = true → w.state.aligned = false →
      ∀ first ∈ w.firstPublish,
        spec.minRateHzMilli.toNat * (first - w.state.windowStartUs) ≤ microsPerMilliHz))

instance (spec : MonitorSpec) (w : RateRun) : ∀ e, Decidable (w.OffBeat spec e)
  | .publish _ => isTrue trivial
  | .tick time => inferInstanceAs (Decidable (w.closes time = true →
      spec.minRateHzMilli.toNat * (time - w.state.windowStartUs) ≠
        (w.inWindow + 1) * microsPerMilliHz))

variable {spec : MonitorSpec} {w next : RateRun}

theorem slow_iff (window : Nat × Nat) :
    slow spec window = true ↔
      (window.2 + 1) * microsPerMilliHz ≤ spec.minRateHzMilli.toNat * window.1 := by
  rw [slow, decide_eq_true_iff, ← Nat.succ_le_iff, Nat.le_div_iff_mul_le (by decide)]

theorem judgeWindow_eq (state : MonitorState) (published windowUs : Nat)
    (few : published < 2 ^ 32) :
    judgeWindow spec state published windowUs =
      (if slow spec (windowUs, published) && !state.violatedLastWindow
        then some (violation spec (windowUs, published)) else none,
      { state with violatedLastWindow := slow spec (windowUs, published) }) := by
  have measured : saturatingMul published microsPerMilliHz = published * microsPerMilliHz := by
    apply saturatingMul_eq
    simp only [microsPerMilliHz, u64Max]
    omega
  have required : published < saturatingMul spec.minRateHzMilli.toNat windowUs / microsPerMilliHz ↔
      slow spec (windowUs, published) = true := by
    rw [slow, decide_eq_true_iff]
    apply lt_saturatingMul_div_iff
    · decide
    · simp only [microsPerMilliHz, u64Max]
      omega
  simp only [judgeWindow, required, measured, violation]
  cases slow spec (windowUs, published) with
  | false => rfl
  | true =>
    rcases state with ⟨opened, start, count, violated, aligned⟩
    cases violated with
    | false => rfl
    | true => rfl

/-- What a tick does to the run, by the branch of the check it takes. -/
inductive Ticked (spec : MonitorSpec) (w : RateRun) (time : Nat) : RateRun → Prop where
  | opens (unopened : w.state.opened = false) :
      Ticked spec w time { w with
        state := { w.state with
          opened := true
          aligned := false
          windowStartUs := time
          countAtWindowStart := w.count }
        clock := time
        atStart := w.published
        opening := some (w.opening.getD time)
        log := ⟨none, none⟩ :: w.log }
  | waits (opened : w.state.opened = true) (early : w.closes time = false) :
      Ticked spec w time { w with
        clock := time
        opening := some (w.opening.getD time)
        log := ⟨none, none⟩ :: w.log }
  | anchors (opened : w.state.opened = true) (early : w.closes time = false)
      (moved : w.count ≠ w.state.countAtWindowStart) :
      Ticked spec w time { w with
        state := { w.state with
          aligned := true
          windowStartUs := time
          countAtWindowStart := w.count }
        clock := time
        atStart := w.published
        opening := some (w.opening.getD time)
        log := ⟨none, none⟩ :: w.log }
  | judges (opened : w.state.opened = true) (due : w.closes time = true)
      (judged : Option Violation × MonitorState) (verdict : judged = judgeWindow spec { w.state with
          aligned := true
          windowStartUs := time
          countAtWindowStart := w.count }
        (w.count - w.state.countAtWindowStart).toNat (time - w.state.windowStartUs)) :
      Ticked spec w time { w with
        state := judged.2
        clock := time
        atStart := w.published
        opening := some (w.opening.getD time)
        log := ⟨some (time - w.state.windowStartUs, w.inWindow), judged.1⟩ :: w.log }

theorem step_publish (time : Nat) (stepped : step spec w (.publish time) = some next) :
    w.clock ≤ time ∧ next = { w with
      count := w.count + 1
      clock := time
      published := w.published + 1
      firstPublish := some (w.firstPublish.getD time)
      lastPublish := some time } := by
  simp only [step] at stepped
  split at stepped
  · cases stepped
  · cases stepped
    exact ⟨by omega, rfl⟩

theorem step_tick (armed : spec.minRateHzMilli ≠ 0) (time : Nat)
    (stepped : step spec w (.tick time) = some next) :
    w.clock ≤ time ∧ Ticked spec w time next := by
  simp only [step] at stepped
  split at stepped
  · cases stepped
  · cases stepped
    refine ⟨by omega, ?_⟩
    cases opened : w.state.opened with
    | false =>
      rw [checkRate_opens armed opened]
      simpa [closes, starts, opened] using .opens opened
    | true =>
      by_cases due : w.closes time = true
      · have late : rateCheckIntervalUs ≤ time - w.state.windowStartUs := by
          simpa [closes, opened] using due
        rw [checkRate_judges armed opened late]
        simpa [starts, due] using .judges opened due _ rfl
      · have early : time - w.state.windowStartUs < rateCheckIntervalUs := by
          simpa [closes, opened] using due
        have stays := Bool.eq_false_of_not_eq_true due
        by_cases still : w.state.aligned = true ∨ w.count = w.state.countAtWindowStart
        · rw [checkRate_waits armed opened early still]
          have unmoved : w.starts time = false := by
            rcases still with aligned | same
            · simp [starts, opened, stays, aligned]
            · simp [starts, opened, stays, same]
          simpa [stays, unmoved] using .waits opened stays
        · rcases not_or.mp still with ⟨unaligned, moved⟩
          rw [checkRate_anchors armed opened early unaligned moved]
          simpa [starts, stays, unaligned, moved] using .anchors opened stays moved

/-- The state of the monitor against the publishes and the ticks it saw. -/
structure Kept (spec : MonitorSpec) (w : RateRun) : Prop where
  behind : w.atStart ≤ w.published
  counted : w.state.opened = true → w.count - w.state.countAtWindowStart = UInt32.ofNat w.inWindow
  remembered : w.state.violatedLastWindow = lastSlow spec w.log
  judged : Judged spec w.log

theorem kept_init (count : UInt32) : Kept spec (init count) where
  behind := Nat.le_refl _
  counted opened := by cases opened
  remembered := rfl
  judged := trivial

theorem Kept.published_eq (kept : w.Kept spec) (opened : w.state.opened = true)
    (few : w.inWindow < 2 ^ 32) : (w.count - w.state.countAtWindowStart).toNat = w.inWindow := by
  rw [kept.counted opened]
  apply toNat_ofNat_u32
  rw [u32Max]
  omega

theorem fresh_count (count : UInt32) (published : Nat) :
    count - count = UInt32.ofNat (published - published) := by
  rw [UInt32.sub_self, Nat.sub_self]
  rfl

theorem publish_kept (time : Nat) (kept : w.Kept spec)
    (stepped : step spec w (.publish time) = some next) : next.Kept spec := by
  rcases step_publish time stepped with ⟨_, rfl⟩
  refine ⟨Nat.le_succ_of_le kept.behind, ?_, kept.remembered, kept.judged⟩
  intro opened
  have behind := kept.behind
  calc
    w.count + 1 - w.state.countAtWindowStart = w.count - w.state.countAtWindowStart + 1 := by
      rw [UInt32.sub_eq_add_neg, UInt32.sub_eq_add_neg, UInt32.add_assoc, UInt32.add_comm 1,
        UInt32.add_assoc]
    _ = UInt32.ofNat w.inWindow + 1 := by rw [kept.counted opened]
    _ = UInt32.ofNat (w.inWindow + 1) := (UInt32.ofNat_add w.inWindow 1).symm
    _ = UInt32.ofNat (w.published + 1 - w.atStart) := by
      rw [inWindow, Nat.sub_add_comm behind]

theorem tick_kept (armed : spec.minRateHzMilli ≠ 0) (time : Nat) (kept : w.Kept spec)
    (few : w.Few (.tick time)) (stepped : step spec w (.tick time) = some next) :
    next.Kept spec := by
  cases (step_tick armed time stepped).2 with
  | opens _ =>
    exact ⟨Nat.le_refl _, fun _ => fresh_count _ _, kept.remembered, rfl, kept.judged⟩
  | waits _ _ => exact ⟨kept.behind, kept.counted, kept.remembered, rfl, kept.judged⟩
  | anchors _ _ _ =>
    exact ⟨Nat.le_refl _, fun _ => fresh_count _ _, kept.remembered, rfl, kept.judged⟩
  | judges opened due judged verdict =>
    rw [kept.published_eq opened (few due), judgeWindow_eq _ _ _ (few due)] at verdict
    cases verdict
    refine ⟨Nat.le_refl _, fun _ => fresh_count _ _, rfl, ?_, kept.judged⟩
    rw [kept.remembered]

theorem step_kept (armed : spec.minRateHzMilli ≠ 0) (e : Event) (kept : w.Kept spec)
    (few : w.Few e) (stepped : step spec w e = some next) : next.Kept spec := by
  cases e with
  | publish time => exact publish_kept time kept stepped
  | tick time => exact tick_kept armed time kept few stepped

/-- How far a stream on rate can have come in the open window. In the window the monitor opened by
itself, the time before the first publish is nobody's period. -/
def Carried (spec : MonitorSpec) (w : RateRun) (last : Nat) : Prop :=
  spec.minRateHzMilli.toNat * (last - w.state.windowStartUs) ≤ w.inWindow * microsPerMilliHz ∨
  (w.state.aligned = false ∧ ∃ first, w.firstPublish = some first ∧
    spec.minRateHzMilli.toNat * (last - w.state.windowStartUs) + microsPerMilliHz ≤
      spec.minRateHzMilli.toNat * (first - w.state.windowStartUs) + w.inWindow * microsPerMilliHz)

/-- A stream on rate, and a monitor that has not reported it. -/
structure Paced (spec : MonitorSpec) (w : RateRun) : Prop where
  kept : w.Kept spec
  silent : w.lastPublish = none → w.published = 0 ∧ w.firstPublish = none
  begun : w.state.opened = true → w.lastPublish = none →
    w.opening = some w.state.windowStartUs ∧ w.state.aligned = false
  unopened : w.state.opened = false → w.opening = none
  heard : ∀ last ∈ w.lastPublish, last ≤ w.clock
  carried : w.state.opened = true → ∀ last ∈ w.lastPublish, w.Carried spec last
  clean : w.state.violatedLastWindow = false
  quiet : ∀ r ∈ w.log, r.verdict = none

def Reported (w : RateRun) : Prop := ∃ r ∈ w.log, r.verdict ≠ none

theorem Paced.not_reported (paced : w.Paced spec) : ¬ w.Reported := by
  rintro ⟨r, member, verdict⟩
  exact verdict (paced.quiet r member)

theorem paced_init (count : UInt32) : Paced spec (init count) where
  kept := kept_init count
  silent _ := ⟨rfl, rfl⟩
  begun opened := by cases opened
  unopened _ := rfl
  heard := by simp [init]
  carried opened := by cases opened
  clean := rfl
  quiet := by simp [init]

theorem span_le (rate start last time : Nat) :
    rate * (time - start) ≤ rate * (last - start) + rate * (time - last) := by
  rw [← Nat.mul_add]
  apply Nat.mul_le_mul_left
  omega

theorem publish_paced (time : Nat) (paced : w.Paced spec) (onRate : w.OnRate spec (.publish time))
    (stepped : step spec w (.publish time) = some next) : next.Paced spec := by
  have kept := publish_kept time paced.kept stepped
  rcases step_publish time stepped with ⟨_, rfl⟩
  refine ⟨kept, ?_, ?_, paced.unopened, ?_, ?_, paced.clean, paced.quiet⟩
  · intro none
    cases none
  · intro _ none
    cases none
  · intro last is
    cases is
    exact Nat.le_refl _
  · intro opened last is
    cases is
    have more : w.published + 1 - w.atStart = w.inWindow + 1 :=
      Nat.sub_add_comm paced.kept.behind
    simp only [Carried, inWindow, more, Nat.add_mul, Nat.one_mul]
    cases previous : w.lastPublish with
    | none =>
      have first : w.firstPublish.getD time = time := by
        rw [(paced.silent previous).2, Option.getD_none]
      refine .inr ⟨(paced.begun opened previous).2, time, congrArg some first, ?_⟩
      omega
    | some last =>
      have span := span_le spec.minRateHzMilli.toNat w.state.windowStartUs last time
      have gap : spec.minRateHzMilli.toNat * (time - last) ≤ microsPerMilliHz :=
        onRate.1 last previous
      rcases paced.carried opened last previous with inside | ⟨unaligned, first, is, outside⟩
      · left
        calc
          _ ≤ _ := span
          _ ≤ w.inWindow * microsPerMilliHz + microsPerMilliHz := Nat.add_le_add inside gap
      · right
        refine ⟨unaligned, first, by rw [is, Option.getD_some], ?_⟩
        change _ ≤ _ + (w.inWindow * microsPerMilliHz + microsPerMilliHz)
        omega

theorem carried_now (last : Nat) (start : last ≤ w.state.windowStartUs) :
    w.Carried spec last := by
  left
  rw [Nat.sub_eq_zero_of_le start, Nat.mul_zero]
  exact Nat.zero_le _

theorem closes_iff (time : Nat) : w.closes time = true ↔
    w.state.opened = true ∧ rateCheckIntervalUs ≤ time - w.state.windowStartUs := by
  rw [closes, Bool.and_eq_true, decide_eq_true_iff]

theorem Paced.spoken_of_due (time : Nat) (paced : w.Paced spec)
    (onRate : w.OnRate spec (.tick time)) (due : w.closes time = true) :
    w.lastPublish ≠ none := by
  intro silence
  rcases (closes_iff time).mp due with ⟨opened, late⟩
  have soon : time < w.state.windowStartUs + rateCheckIntervalUs :=
    onRate.2 silence _ (paced.begun opened silence).1
  rw [rateCheckIntervalUs] at late soon
  omega

theorem Paced.spoken_of_moved (paced : w.Paced spec) (opened : w.state.opened = true)
    (moved : w.count ≠ w.state.countAtWindowStart) : w.lastPublish ≠ none := by
  intro silence
  apply moved
  have none : w.count - w.state.countAtWindowStart = 0 := by
    rw [paced.kept.counted opened, inWindow, (paced.silent silence).1, Nat.zero_sub]
    rfl
  calc
    w.count = w.count - w.state.countAtWindowStart + w.state.countAtWindowStart :=
      (UInt32.sub_add_cancel _ _).symm
    _ = w.state.countAtWindowStart := by rw [none, UInt32.zero_add]

theorem Paced.window_le (time : Nat) (paced : w.Paced spec) (onRate : w.OnRate spec (.tick time))
    (early : w.Early spec (.tick time)) (due : w.closes time = true) :
    spec.minRateHzMilli.toNat * (time - w.state.windowStartUs) ≤
      (w.inWindow + 1) * microsPerMilliHz := by
  have opened := ((closes_iff time).mp due).1
  rcases Option.ne_none_iff_exists'.mp (paced.spoken_of_due time onRate due) with ⟨last, previous⟩
  have span := span_le spec.minRateHzMilli.toNat w.state.windowStartUs last time
  have gap : spec.minRateHzMilli.toNat * (time - last) ≤ microsPerMilliHz :=
    onRate.1 last previous
  rw [Nat.add_mul, Nat.one_mul]
  rcases paced.carried opened last previous with inside | ⟨unaligned, first, is, outside⟩
  · calc
      _ ≤ _ := span
      _ ≤ w.inWindow * microsPerMilliHz + microsPerMilliHz := Nat.add_le_add inside gap
  · have near := early due unaligned first is
    omega

theorem tick_paced (armed : spec.minRateHzMilli ≠ 0) (time : Nat) (paced : w.Paced spec)
    (few : w.Few (.tick time)) (onRate : w.OnRate spec (.tick time))
    (early : w.Early spec (.tick time)) (offBeat : w.OffBeat spec (.tick time))
    (stepped : step spec w (.tick time) = some next) : next.Paced spec := by
  have kept := tick_kept armed time paced.kept few stepped
  rcases step_tick armed time stepped with ⟨onward, ticked⟩
  have heard : ∀ last ∈ w.lastPublish, last ≤ time := fun last is =>
    Nat.le_trans (paced.heard last is) onward
  cases ticked with
  | opens unopened =>
    exact {
      kept := kept
      silent := paced.silent
      begun := fun _ _ => ⟨by rw [paced.unopened unopened, Option.getD_none], rfl⟩
      unopened := nofun
      heard := heard
      carried := fun _ last is => carried_now last (heard last is)
      clean := paced.clean
      quiet := List.forall_mem_cons.mpr ⟨rfl, paced.quiet⟩ }
  | waits opened _ =>
    exact {
      kept := kept
      silent := paced.silent
      begun := fun _ silence =>
        ⟨by rw [(paced.begun opened silence).1, Option.getD_some], (paced.begun opened silence).2⟩
      unopened := fun shut => absurd (opened.symm.trans shut) (by decide)
      heard := heard
      carried := paced.carried
      clean := paced.clean
      quiet := List.forall_mem_cons.mpr ⟨rfl, paced.quiet⟩ }
  | anchors opened _ moved =>
    exact {
      kept := kept
      silent := paced.silent
      begun := fun _ silence => absurd silence (paced.spoken_of_moved opened moved)
      unopened := fun shut => absurd (opened.symm.trans shut) (by decide)
      heard := heard
      carried := fun _ last is => carried_now last (heard last is)
      clean := paced.clean
      quiet := List.forall_mem_cons.mpr ⟨rfl, paced.quiet⟩ }
  | judges opened due judged verdict =>
    have enough : slow spec (time - w.state.windowStartUs, w.inWindow) = false := by
      apply Bool.eq_false_of_not_eq_true
      rw [slow_iff]
      intro short
      exact offBeat due (Nat.le_antisymm (paced.window_le time onRate early due) short)
    have spoken := paced.spoken_of_due time onRate due
    rw [paced.kept.published_eq opened (few due), judgeWindow_eq _ _ _ (few due), enough]
      at verdict
    cases verdict
    exact {
      kept := kept
      silent := paced.silent
      begun := fun _ silence => absurd silence spoken
      unopened := fun shut => absurd (opened.symm.trans shut) (by decide)
      heard := heard
      carried := fun _ last is => carried_now last (heard last is)
      clean := rfl
      quiet := List.forall_mem_cons.mpr ⟨rfl, paced.quiet⟩ }

theorem tick_reports (armed : spec.minRateHzMilli ≠ 0) (time : Nat) (paced : w.Paced spec)
    (few : w.Few (.tick time)) (onBeat : ¬ w.OffBeat spec (.tick time))
    (stepped : step spec w (.tick time) = some next) : next.Reported := by
  rcases Classical.not_imp.mp onBeat with ⟨due, exactly⟩
  have short : slow spec (time - w.state.windowStartUs, w.inWindow) = true :=
    (slow_iff _).mpr (Nat.le_of_eq (Decidable.not_not.mp exactly).symm)
  cases (step_tick armed time stepped).2 with
  | opens unopened =>
    exact absurd (unopened.symm.trans ((closes_iff time).mp due).1) (by decide)
  | waits _ notDue | anchors _ notDue _ => exact absurd (due.symm.trans notDue) (by decide)
  | judges opened _ judged verdict =>
    rw [paced.kept.published_eq opened (few due), judgeWindow_eq _ _ _ (few due), short,
      paced.clean] at verdict
    cases verdict
    exact ⟨_, List.mem_cons_self, Option.some_ne_none _⟩

theorem reported_lasts (e : Event) (reported : w.Reported)
    (stepped : step spec w e = some next) : next.Reported := by
  rcases reported with ⟨r, member, verdict⟩
  refine ⟨r, ?_, verdict⟩
  cases e with
  | publish time =>
    rcases step_publish time stepped with ⟨_, rfl⟩
    exact member
  | tick time =>
    simp only [step] at stepped
    split at stepped
    · cases stepped
    · cases stepped
      exact List.mem_cons_of_mem _ member

/-- A stream on rate, counted without loss, that was there from the start of every judged
window. -/
def Steady (spec : MonitorSpec) (w : RateRun) (e : Event) : Prop :=
  w.Few e ∧ w.OnRate spec e ∧ w.Early spec e

section

variable (armed : spec.minRateHzMilli ≠ 0)
include armed

theorem step_paced (e : Event) (paced : w.Paced spec) (steady : w.Steady spec e)
    (offBeat : w.OffBeat spec e) (stepped : step spec w e = some next) :
    next.Paced spec := by
  cases e with
  | publish time => exact publish_paced time paced steady.2.1 stepped
  | tick time =>
    exact tick_paced armed time paced steady.1 steady.2.1 steady.2.2 offBeat stepped

theorem step_reports (e : Event) (paced : w.Paced spec) (steady : w.Steady spec e)
    (onBeat : ¬ w.OffBeat spec e) (stepped : step spec w e = some next) :
    next.Reported := by
  cases e with
  | publish time => exact absurd trivial onBeat
  | tick time => exact tick_reports armed time paced steady.1 onBeat stepped

theorem not_reported_iff (count : UInt32) (events : List Event) (last : RateRun)
    (reached : run (step spec) (init count) events = some last)
    (steady : Along (step spec) (Steady spec) (init count) events) :
    ¬ last.Reported ↔ Along (step spec) (OffBeat spec) (init count) events :=
  run_sound_iff_of (fun _ paced => paced.not_reported) (fun _ e _ => step_paced armed e)
    (fun _ e _ => step_reports armed e) (fun _ e _ => reported_lasts e)
    (init count) last events (paced_init count) steady reached

end

/-- Every tick reports exactly a window that is slow and the first of its kind; on a stream that
keeps the declared rate no window is, unless one closes on the beat. -/
theorem verdicts_sound_iff (spec : MonitorSpec) (armed : spec.minRateHzMilli ≠ 0) (count : UInt32)
    (events : List Event) (last : RateRun)
    (reached : run (step spec) (init count) events = some last)
    (few : Along (step spec) Few (init count) events) :
    Judged spec last.log ∧ (Along (step spec) (OnRate spec) (init count) events →
      Along (step spec) (Early spec) (init count) events → ((∀ r ∈ last.log, r.verdict = none) ↔
        Along (step spec) (OffBeat spec) (init count) events)) := by
  constructor
  · have kept : last.Kept spec :=
      run_invariant_along (fun w e next kept few => step_kept armed e kept few)
        (init count) last events (kept_init count) few reached
    exact kept.judged
  · intro onRate early
    rw [← not_reported_iff armed count events last reached (along_and few (along_and onRate early))]
    simp only [Reported, not_exists, not_and, not_not]

/-- Two seconds between publishes, on a counter that wraps at the first. -/
theorem verdicts_sound_steady : ∃ last,
    run (step ⟨"/island/odom", 500⟩) (init 4294967295) [.tick 0, .publish 1000000, .tick 1100000,
      .publish 3000000, .publish 5000000, .tick 6500000] = some last ∧
    Judged ⟨"/island/odom", 500⟩ last.log ∧ ∀ r ∈ last.log, r.verdict = none := by
  refine ⟨_, rfl, ?_⟩
  have sound := verdicts_sound_iff ⟨"/island/odom", 500⟩ (by decide) 4294967295
    [.tick 0, .publish 1000000, .tick 1100000, .publish 3000000, .publish 5000000, .tick 6500000]
    _ rfl (by decide)
  exact ⟨sound.1, (sound.2 (by decide) (by decide)).mpr (by decide)⟩

/-- Streams that keep the declared rate and are reported: one whose first window is judged as
opened, since no tick came between its first publish and the end of that window, and one whose
window closes on the beat. -/
theorem on_rate_streams_reported : (∃ last, run (step ⟨"/island/odom", 10000⟩) (init 0)
        [.tick 0, .publish 4900000, .publish 5000000, .tick 5000000] = some last ∧
      Along (step ⟨"/island/odom", 10000⟩) (OnRate ⟨"/island/odom", 10000⟩) (init 0)
        [.tick 0, .publish 4900000, .publish 5000000, .tick 5000000] ∧
      ∃ r ∈ last.log, r.verdict.map Violation.measured = some 400) ∧
    (∃ last, run (step ⟨"/island/odom", 200⟩) (init 0)
        [.tick 0, .publish 1000000, .tick 1000000, .tick 6000000] = some last ∧
      Along (step ⟨"/island/odom", 200⟩) (OnRate ⟨"/island/odom", 200⟩) (init 0)
        [.tick 0, .publish 1000000, .tick 1000000, .tick 6000000] ∧
      ∃ r ∈ last.log, r.verdict.map Violation.measured = some 0) := by
  constructor
  · exact ⟨_, rfl, by decide, by decide⟩
  · exact ⟨_, rfl, by decide, by decide⟩

end RateRun

end NanoRos
