import NanoRos.Lib.WrapInstant
import NanoRos.Node.AgeMonitor

/-! Runs of an age row: takes, arrivals, arming and ticks in any order. -/

namespace NanoRos

/-- What was seen and returned, with the full numbers. Times are whole milliseconds. -/
structure AgeRecord where
  /-- Takes and arrivals since the last tick. -/
  takes : Nat
  arrivals : Nat
  /-- The largest age observed since the last drain. -/
  oldest : Nat
  /-- Whether the largest age of the last drain exceeded the bound. -/
  exceeded : Bool
  /-- The last tick and the window in force at it. -/
  lastTick : Option (Nat × Nat)
  /-- The last tick that saw evidence, or the opening tick. -/
  since : Nat
  /-- Whether silence was returned since. -/
  reported : Bool
  deriving DecidableEq

structure AgeRun where
  cell : SubMonitorCell
  state : AgeRowState
  record : AgeRecord
  deriving DecidableEq

inductive AgeEvent where
  | observe (stampUs epochNowUs : UInt64)
  | observeUnaged
  | creditArrivals (ready : Mask 64)
  | armDeadline (slot : UInt32)
  | deadlineUnbind (slot : UInt32)
  | tick (nowUs : UInt64)

def AgeRecord.start : AgeRecord := ⟨0, 0, 0, false, none, 0, false⟩

def AgeRun.start : AgeRun := ⟨SubMonitorCell.new, AgeRowState.default, AgeRecord.start⟩

/-- An age contract goes by takes, a deadline alone by arrivals. -/
def AgeRecord.evidence (record : AgeRecord) (spec : AgeMonitorSpec) : Nat :=
  if spec.maxAgeMs = 0 then record.arrivals else record.takes

/-- The window in force, zero if no silence is judged. -/
def AgeRun.windowMs (s : AgeRun) (spec : AgeMonitorSpec) : Nat :=
  ((spec.silenceWindowMs s.cell).getD 0).toNat

/-- Whether the check returned this rule. -/
def returns (rule : String) (verdict : Option Violation) : Bool :=
  verdict.any fun v => decide (v.rule = rule)

/-- A tick that returns silence leaves the age undrained. -/
def AgeRecord.tick (record : AgeRecord) (spec : AgeMonitorSpec) (windowMs nowMs : Nat)
    (silent : Bool) : AgeRecord :=
  let fed := record.lastTick.isNone || decide (0 < record.evidence spec)
  let drains := !silent && decide (spec.maxAgeMs ≠ 0)
  { takes := 0
    arrivals := 0
    oldest := if drains then 0 else record.oldest
    exceeded := if drains then decide (spec.maxAgeMs.toNat < record.oldest) else record.exceeded
    lastTick := some (nowMs, windowMs)
    since := if fed then nowMs else record.since
    reported := if fed then false else record.reported || silent }

def AgeRun.step (spec : AgeMonitorSpec) (s : AgeRun) : AgeEvent → Option AgeRun
  | .observe stampUs epochNowUs => some { s with
      cell := s.cell.observe stampUs epochNowUs
      record := { s.record with
        takes := s.record.takes + 1
        oldest := max s.record.oldest (SubMonitorCell.ageMs stampUs epochNowUs).toNat } }
  | .observeUnaged => some { s with
      cell := s.cell.observeUnaged
      record := { s.record with takes := s.record.takes + 1 } }
  | .creditArrivals ready => some { s with
      cell := s.cell.creditArrivals ready
      record := { s.record with
        arrivals := s.record.arrivals + (s.cell.arrives ready).toNat } }
  | .armDeadline slot => some { s with cell := s.cell.armDeadline slot }
  | .deadlineUnbind slot => some { s with cell := s.cell.deadlineUnbind slot }
  | .tick nowUs =>
    let (verdict, cell, state) := checkAge spec s.cell s.state (some nowUs)
    some ⟨cell, state, s.record.tick spec (s.windowMs spec) (nowUs.toNat / 1000)
        (returns "silence-runtime" verdict)⟩

/-- A tick has a window, is not before the last one, and saw less evidence than a counter holds; if
it is to judge a wait, the window at the last tick and the time since fit the clock. -/
def AgeRun.Timely (spec : AgeMonitorSpec) (s : AgeRun) : AgeEvent → Prop
  | .tick nowUs =>
    0 < s.windowMs spec ∧ s.record.takes < 2 ^ 32 ∧ s.record.arrivals < 2 ^ 32 ∧
      ∀ last ∈ s.record.lastTick, last.1 ≤ nowUs.toNat / 1000 ∧
        (s.record.evidence spec = 0 → s.record.reported = false →
          last.2 + (nowUs.toNat / 1000 - last.1) ≤ 2 ^ 32)
  | _ => True

instance (spec : AgeMonitorSpec) (s : AgeRun) : (event : AgeEvent) → Decidable (s.Timely spec event)
  | .tick _ => inferInstanceAs (Decidable (_ ∧ _ ∧ _ ∧ ∀ last ∈ s.record.lastTick, _))
  | .observe _ _ => isTrue trivial
  | .observeUnaged => isTrue trivial
  | .creditArrivals _ => isTrue trivial
  | .armDeadline _ => isTrue trivial
  | .deadlineUnbind _ => isTrue trivial

/-- A tick has a window and comes after the last one, less than `2 ^ 31` ms later. -/
def AgeRun.Spaced (spec : AgeMonitorSpec) (s : AgeRun) : AgeEvent → Prop
  | .tick nowUs =>
    0 < s.windowMs spec ∧ ∀ last ∈ s.record.lastTick,
      last.1 ≤ nowUs.toNat / 1000 ∧ nowUs.toNat / 1000 - last.1 < 2 ^ 31
  | _ => True

instance (spec : AgeMonitorSpec) (s : AgeRun) : (event : AgeEvent) → Decidable (s.Spaced spec event)
  | .tick _ => inferInstanceAs (Decidable (_ ∧ ∀ last ∈ s.record.lastTick, _))
  | .observe _ _ => isTrue trivial
  | .observeUnaged => isTrue trivial
  | .creditArrivals _ => isTrue trivial
  | .armDeadline _ => isTrue trivial
  | .deadlineUnbind _ => isTrue trivial

/-- No evidence, the window has passed since the last, and silence was not returned since. -/
def AgeRun.SilenceDue (spec : AgeMonitorSpec) (s : AgeRun) (nowMs : Nat) : Prop :=
  s.record.lastTick.isSome = true ∧ s.record.evidence spec = 0 ∧
    s.windowMs spec ≤ nowMs - s.record.since ∧ s.record.reported = false

instance (spec : AgeMonitorSpec) (s : AgeRun) (nowMs : Nat) : Decidable (s.SilenceDue spec nowMs) :=
  inferInstanceAs (Decidable (_ ∧ _ ∧ _ ∧ _))

/-- The largest age since the last drain exceeds the bound, and the last drain's did not. -/
def AgeRun.AgeDue (spec : AgeMonitorSpec) (s : AgeRun) : Prop :=
  spec.maxAgeMs ≠ 0 ∧ spec.maxAgeMs.toNat < s.record.oldest ∧ s.record.exceeded = false

/-- How the words follow the record. -/
structure AgeRun.Follows (spec : AgeMonitorSpec) (s : AgeRun) : Prop where
  takes : s.cell.takes = UInt32.ofNat s.record.takes
  arrivals : s.cell.arrivals = UInt32.ofNat s.record.arrivals
  oldest : s.cell.maxAgeMs.toNat = s.record.oldest
  exceeded : s.state.violatedLastWindow = s.record.exceeded
  opened : s.state.silenceOpened = s.record.lastTick.isSome
  reported : s.state.silenceReported = s.record.reported
  lease : ∀ last ∈ s.record.lastTick, s.state.lastTakeMs = UInt32.ofNat s.record.since ∧
    s.record.since ≤ last.1 ∧ (s.record.reported = false → last.1 - s.record.since < last.2)
  fresh : s.record.lastTick = none → s.record.reported = false
  quiet : spec.maxAgeMs ≠ 0 → s.record.takes = 0 → s.record.oldest = 0

namespace AgeRun

section

variable {spec : AgeMonitorSpec} {s next : AgeRun} {nowUs : UInt64}

theorem Follows.start : AgeRun.start.Follows spec where
  takes := rfl
  arrivals := rfl
  oldest := rfl
  exceeded := rfl
  opened := rfl
  reported := rfl
  lease := by
    intro last impossible
    cases impossible
  fresh := fun _ => rfl
  quiet := fun _ _ => rfl

theorem toNat_max (a b : UInt32) : (max a b).toNat = max a.toNat b.toNat := by
  have cases_ : max a b = if a ≤ b then b else a := rfl
  rw [cases_]
  split
  next below =>
    rw [UInt32.le_iff_toNat_le] at below
    omega
  next above =>
    rw [UInt32.le_iff_toNat_le] at above
    omega

theorem ofNat_succ (n : Nat) : UInt32.ofNat (n + 1) = UInt32.ofNat n + 1 := by
  apply UInt32.toNat_inj.mp
  simp [UInt32.toNat_add]

theorem Follows.between (follows : s.Follows spec) {event : AgeEvent}
    (untimed : ∀ nowUs, event ≠ .tick nowUs) (stepped : s.step spec event = some next) :
    next.Follows spec := by
  cases event with
  | observe stampUs epochNowUs =>
    cases stepped
    refine ⟨?_, follows.arrivals, ?_, follows.exceeded, follows.opened, follows.reported,
      follows.lease, follows.fresh, ?_⟩
    · exact (congrArg (· + 1) follows.takes).trans (ofNat_succ _).symm
    · show (max s.cell.maxAgeMs _).toNat = max s.record.oldest _
      rw [toNat_max, follows.oldest]
    · intro _ impossible
      exact absurd impossible (Nat.succ_ne_zero _)
  | observeUnaged =>
    cases stepped
    refine ⟨?_, follows.arrivals, follows.oldest, follows.exceeded, follows.opened,
      follows.reported, follows.lease, follows.fresh, ?_⟩
    · exact (congrArg (· + 1) follows.takes).trans (ofNat_succ _).symm
    · intro _ impossible
      exact absurd impossible (Nat.succ_ne_zero _)
  | creditArrivals ready =>
    cases stepped
    have arrivals : (s.cell.creditArrivals ready).arrivals =
        UInt32.ofNat (s.record.arrivals + (s.cell.arrives ready).toNat) := by
      unfold SubMonitorCell.creditArrivals
      cases s.cell.arrives ready with
      | true => exact (congrArg (· + 1) follows.arrivals).trans (ofNat_succ _).symm
      | false => exact follows.arrivals
    have others : (s.cell.creditArrivals ready).takes = s.cell.takes ∧
        (s.cell.creditArrivals ready).maxAgeMs = s.cell.maxAgeMs := by
      unfold SubMonitorCell.creditArrivals
      split <;> exact ⟨rfl, rfl⟩
    refine ⟨others.1.trans follows.takes, arrivals, ?_, follows.exceeded, follows.opened,
      follows.reported, follows.lease, follows.fresh, follows.quiet⟩
    show (s.cell.creditArrivals ready).maxAgeMs.toNat = s.record.oldest
    rw [others.2]
    exact follows.oldest
  | armDeadline slot =>
    cases stepped
    exact ⟨follows.takes, follows.arrivals, follows.oldest, follows.exceeded, follows.opened,
      follows.reported, follows.lease, follows.fresh, follows.quiet⟩
  | deadlineUnbind slot =>
    cases stepped
    unfold SubMonitorCell.deadlineUnbind
    split <;> exact ⟨follows.takes, follows.arrivals, follows.oldest, follows.exceeded,
      follows.opened, follows.reported, follows.lease, follows.fresh, follows.quiet⟩
  | tick nowUs => exact absurd rfl (untimed nowUs)

/-! The tick. -/

theorem checkSilence_opening {window took : UInt32} {state : AgeRowState}
    (shut : state.silenceOpened = false) : checkSilence window state took nowUs =
      (false, { state with silenceOpened := true, lastTakeMs := clockMs nowUs }) := by
  simp [checkSilence, shut]

theorem checkSilence_fed {window took : UInt32} {state : AgeRowState}
    (opened : state.silenceOpened = true) (fed : 0 < took) :
    checkSilence window state took nowUs =
      (false, { state with lastTakeMs := clockMs nowUs, silenceReported := false }) := by
  simp [checkSilence, opened, fed]

theorem checkSilence_starved {window took : UInt32} {state : AgeRowState}
    (opened : state.silenceOpened = true) (starved : ¬ 0 < took) :
    checkSilence window state took nowUs =
      if (decide (clockMs nowUs - state.lastTakeMs < window) || state.silenceReported) = true then
        (false, state)
      else (true, { state with silenceReported := true }) := by
  unfold checkSilence
  simp only [opened, Bool.not_true, Bool.false_eq_true, if_false, if_neg starved]
  by_cases early : clockMs nowUs - state.lastTakeMs < window
  · simp [early]
  · cases state.silenceReported <;> simp [early]

theorem Follows.took (follows : s.Follows spec) :
    (if spec.maxAgeMs = 0 then s.cell.arrivals else s.cell.takes) =
      UInt32.ofNat (s.record.evidence spec) := by
  unfold AgeRecord.evidence
  split
  · exact follows.arrivals
  · exact follows.takes

theorem pos_ofNat_iff {n : Nat} (small : n < 2 ^ 32) : 0 < UInt32.ofNat n ↔ 0 < n := by
  rw [UInt32.lt_iff_toNat_lt, UInt32.toNat_ofNat_of_lt' small]
  rfl

theorem Timely.evidence (timely : s.Timely spec (.tick nowUs)) :
    s.record.evidence spec < 2 ^ 32 := by
  rcases timely with ⟨_, takes, arrivals, _⟩
  unfold AgeRecord.evidence
  split
  · exact arrivals
  · exact takes

theorem Timely.judged (timely : s.Timely spec (.tick nowUs)) :
    ∃ window, spec.silenceWindowMs s.cell = some window ∧ s.windowMs spec = window.toNat := by
  cases judged : spec.silenceWindowMs s.cell with
  | none =>
    have positive := timely.1
    rw [windowMs, judged] at positive
    exact absurd positive (by decide)
  | some window => exact ⟨window, rfl, by rw [windowMs, judged, Option.getD_some]⟩

/-- The lease after a tick. -/
structure Leased (state : AgeRowState) (record : AgeRecord) (nowMs windowMs : Nat) : Prop where
  opened : state.silenceOpened = true
  reported : state.silenceReported = record.reported
  lastTake : state.lastTakeMs = UInt32.ofNat record.since
  since : record.since ≤ nowMs
  waits : record.reported = false → nowMs - record.since < windowMs

theorem leased_fed {state : AgeRowState} {silent : Bool} {windowMs : Nat}
    (fed : s.record.lastTick.isNone = true ∨ 0 < s.record.evidence spec)
    (opened : state.silenceOpened = true) (reported : state.silenceReported = false)
    (lastTake : state.lastTakeMs = clockMs nowUs) (positive : 0 < windowMs) :
    Leased state (s.record.tick spec windowMs (nowUs.toNat / 1000) silent) (nowUs.toNat / 1000)
      windowMs := by
  have fed' : (s.record.lastTick.isNone || decide (0 < s.record.evidence spec)) = true := by
    simpa using fed
  simp only [AgeRecord.tick, fed', if_true]
  exact ⟨opened, reported, lastTake, Nat.le_refl _, fun _ => by simpa using positive⟩

theorem leased_starved {state : AgeRowState} {silent : Bool} {last : Nat × Nat} {window : Nat}
    (held : s.record.lastTick = some last)
    (starved : s.record.evidence spec = 0) (opened : state.silenceOpened = true)
    (reported : state.silenceReported = (s.record.reported || silent))
    (lastTake : state.lastTakeMs = UInt32.ofNat s.record.since)
    (since : s.record.since ≤ nowUs.toNat / 1000)
    (waits : (s.record.reported || silent) = false → nowUs.toNat / 1000 - s.record.since < window) :
    Leased state (s.record.tick spec window (nowUs.toNat / 1000) silent) (nowUs.toNat / 1000)
      window := by
  have unfed : (s.record.lastTick.isNone || decide (0 < s.record.evidence spec)) = false := by
    simp [held, starved]
  simp only [AgeRecord.tick, unfed, Bool.false_eq_true, if_false]
  exact ⟨opened, reported, lastTake, since, waits⟩

theorem Follows.checkSilence_unfed (follows : s.Follows spec)
    (timely : s.Timely spec (.tick nowUs)) {window : UInt32}
    (here : s.windowMs spec = window.toNat) {last : Nat × Nat}
    (held : s.record.lastTick = some last) (starved : s.record.evidence spec = 0)
    {out : Bool × AgeRowState}
    (is : out = NanoRos.checkSilence window s.state (UInt32.ofNat (s.record.evidence spec)) nowUs) :
    (out.1 = true ↔ s.SilenceDue spec (nowUs.toNat / 1000)) ∧
      out.2.violatedLastWindow = s.record.exceeded ∧
      Leased out.2 (s.record.tick spec window.toNat (nowUs.toNat / 1000) out.1)
        (nowUs.toNat / 1000) window.toNat := by
  have counts := pos_ofNat_iff timely.evidence
  have opened : s.state.silenceOpened = true := by rw [follows.opened, held]; rfl
  rcases follows.lease last (by rw [held]; rfl) with ⟨lastTake, since, waits⟩
  rcases timely.2.2.2 last (by rw [held]; rfl) with ⟨order, fits⟩
  have reached : s.record.since ≤ nowUs.toNat / 1000 := since.trans order
  rw [checkSilence_starved opened fun some_ => (counts.mp some_).ne' starved,
    follows.reported] at is
  cases reported : s.record.reported with
  | true =>
    rw [reported, Bool.or_true, if_pos rfl] at is
    subst is
    refine ⟨by simp [SilenceDue, reported], follows.exceeded, ?_⟩
    apply leased_starved held starved opened _ lastTake reached
    · rw [reported]
      exact fun impossible => nomatch impossible
    · rw [follows.reported, reported]
      rfl
  | false =>
    have wait : (clockMs nowUs - s.state.lastTakeMs).toNat =
        nowUs.toNat / 1000 - s.record.since := by
      have short := waits reported
      have fit := fits starved reported
      rw [lastTake]
      exact toNat_sub_stamps reached (by omega)
    have judged : (decide (clockMs nowUs - s.state.lastTakeMs < window) || false) = true ↔
        nowUs.toNat / 1000 - s.record.since < window.toNat := by
      rw [Bool.or_false, decide_eq_true_iff, UInt32.lt_iff_toNat_lt, wait]
    rw [reported] at is
    by_cases early : nowUs.toNat / 1000 - s.record.since < window.toNat
    · rw [if_pos (judged.mpr early)] at is
      subst is
      refine ⟨by simp [SilenceDue, here, early], follows.exceeded, ?_⟩
      apply leased_starved held starved opened _ lastTake reached
      · exact fun _ => early
      · rw [follows.reported, reported]
        rfl
    · rw [if_neg fun before => early (judged.mp before)] at is
      subst is
      refine ⟨?_, follows.exceeded, ?_⟩
      · simp [SilenceDue, held, starved, reported, here, Nat.not_lt.mp early]
      · refine leased_starved held starved opened ?_ lastTake reached ?_
        · rw [reported]
          rfl
        · rw [reported]
          exact fun impossible => nomatch impossible

theorem Follows.checkSilence (follows : s.Follows spec)
    (timely : s.Timely spec (.tick nowUs)) {window : UInt32}
    (here : s.windowMs spec = window.toNat) {out : Bool × AgeRowState}
    (is : out = NanoRos.checkSilence window s.state (UInt32.ofNat (s.record.evidence spec)) nowUs) :
    (out.1 = true ↔ s.SilenceDue spec (nowUs.toNat / 1000)) ∧
      out.2.violatedLastWindow = s.record.exceeded ∧
      Leased out.2 (s.record.tick spec window.toNat (nowUs.toNat / 1000) out.1)
        (nowUs.toNat / 1000) window.toNat := by
  have positive : 0 < window.toNat := here ▸ timely.1
  cases held : s.record.lastTick with
  | none =>
    have shut : s.state.silenceOpened = false := by rw [follows.opened, held]; rfl
    rw [checkSilence_opening shut] at is
    subst is
    refine ⟨by simp [SilenceDue, held], follows.exceeded, ?_⟩
    exact leased_fed (Or.inl (by rw [held]; rfl)) rfl
      (follows.reported.trans (follows.fresh held)) rfl positive
  | some last =>
    by_cases fed : 0 < s.record.evidence spec
    · have opened : s.state.silenceOpened = true := by rw [follows.opened, held]; rfl
      rw [checkSilence_fed opened ((pos_ofNat_iff timely.evidence).mpr fed)] at is
      subst is
      refine ⟨by simp [SilenceDue, fed.ne'], follows.exceeded, ?_⟩
      exact leased_fed (Or.inr fed) opened rfl rfl positive
    · exact follows.checkSilence_unfed timely here held (Nat.eq_zero_of_not_pos fed) is

theorem checkMaxAge_spec {cell : SubMonitorCell} {state : AgeRowState}
    (oldest : cell.maxAgeMs.toNat = s.record.oldest)
    (exceeded : state.violatedLastWindow = s.record.exceeded) :
    let out := checkMaxAge spec cell state
    (returns "max-age-runtime" out.1 = true ↔ s.AgeDue spec) ∧
      returns "silence-runtime" out.1 = false ∧ out.2.1.takes = cell.takes ∧
      out.2.1.arrivals = cell.arrivals ∧
      out.2.1.maxAgeMs.toNat = (if spec.maxAgeMs ≠ 0 then 0 else s.record.oldest) ∧
      out.2.2 = { state with
        violatedLastWindow := if spec.maxAgeMs ≠ 0 then
          decide (spec.maxAgeMs.toNat < s.record.oldest)
        else s.record.exceeded } := by
  unfold checkMaxAge AgeDue
  dsimp only
  by_cases bound : spec.maxAgeMs = 0
  · rw [if_pos bound]
    simp [bound, returns, oldest, ← exceeded]
  · rw [if_neg bound]
    have past : spec.maxAgeMs < cell.maxAgeMs ↔ spec.maxAgeMs.toNat < s.record.oldest := by
      rw [UInt32.lt_iff_toNat_lt, oldest]
    by_cases exceeds : spec.maxAgeMs < cell.maxAgeMs
    · rw [if_pos exceeds]
      cases before : s.record.exceeded with
      | true =>
        rw [before] at exceeded
        rw [exceeded, if_pos rfl]
        simp [bound, returns, past.mp exceeds, ← exceeded]
      | false =>
        rw [before] at exceeded
        rw [exceeded, if_neg Bool.false_ne_true]
        simp [bound, returns, past.mp exceeds]
    · rw [if_neg exceeds]
      have within : ¬ spec.maxAgeMs.toNat < s.record.oldest := fun more => exceeds (past.mpr more)
      simp [bound, returns, within]

theorem Follows.apart (follows : s.Follows spec) {nowMs : Nat} (silent : s.SilenceDue spec nowMs) :
    ¬ s.AgeDue spec := by
  rintro ⟨bound, past, _⟩
  have starved := silent.2.1
  rw [AgeRecord.evidence, if_neg bound] at starved
  rw [follows.quiet bound starved] at past
  exact absurd past (Nat.not_lt_zero _)

theorem Leased.follows {cell : SubMonitorCell} {state : AgeRowState} {record : AgeRecord}
    {nowMs windowMs : Nat} (leased : Leased state record nowMs windowMs)
    (lastTick : record.lastTick = some (nowMs, windowMs))
    (takes : cell.takes = UInt32.ofNat record.takes)
    (arrivals : cell.arrivals = UInt32.ofNat record.arrivals)
    (oldest : cell.maxAgeMs.toNat = record.oldest)
    (exceeded : state.violatedLastWindow = record.exceeded)
    (quiet : spec.maxAgeMs ≠ 0 → record.takes = 0 → record.oldest = 0) :
    Follows spec ⟨cell, state, record⟩ where
  takes := takes
  arrivals := arrivals
  oldest := oldest
  exceeded := exceeded
  opened := by
    dsimp only
    rw [lastTick, leased.opened]
    rfl
  reported := leased.reported
  lease := by
    intro last there
    rw [lastTick] at there
    cases there
    exact ⟨leased.lastTake, leased.since, leased.waits⟩
  fresh := by
    intro impossible
    rw [lastTick] at impossible
    cases impossible
  quiet := quiet

theorem Follows.tick (follows : s.Follows spec) (timely : s.Timely spec (.tick nowUs))
    {out : Option Violation × SubMonitorCell × AgeRowState}
    (is : out = checkAge spec s.cell s.state (some nowUs)) :
    (returns "silence-runtime" out.1 = true ↔ s.SilenceDue spec (nowUs.toNat / 1000)) ∧
      (returns "max-age-runtime" out.1 = true ↔ s.AgeDue spec) ∧ Follows spec ⟨out.2.1, out.2.2,
        s.record.tick spec (s.windowMs spec) (nowUs.toNat / 1000)
          (returns "silence-runtime" out.1)⟩ := by
  rcases timely.judged with ⟨window, judged, here⟩
  have lease := follows.checkSilence timely here rfl
  rw [checkAge, silenceWindow, judged] at is
  simp only [Option.map_some, follows.took] at is
  rcases verdict : NanoRos.checkSilence window s.state (UInt32.ofNat (s.record.evidence spec))
    nowUs with ⟨silent, state⟩
  rw [verdict] at is lease
  rcases lease with ⟨due, exceeded, leased⟩
  rw [here]
  cases silent with
  | true =>
    rw [if_pos rfl] at is
    subst is
    have silence := due.mp rfl
    refine ⟨iff_of_true rfl silence, iff_of_false (by simp [returns]) (follows.apart silence), ?_⟩
    refine leased.follows rfl rfl rfl follows.oldest exceeded fun bound _ => ?_
    apply follows.quiet bound
    simpa [AgeRecord.evidence, bound] using silence.2.1
  | false =>
    rw [if_neg Bool.false_ne_true] at is
    have aged := @checkMaxAge_spec spec s { s.cell with takes := 0, arrivals := 0 } state
      follows.oldest exceeded
    rw [← is] at aged
    rcases aged with ⟨age, quiet, takes, arrivals, oldest, after⟩
    refine ⟨by rw [quiet, ← due], age, ?_⟩
    rw [quiet]
    refine Leased.follows ?_ rfl takes arrivals ?_ ?_ ?_
    · rw [after]
      exact ⟨leased.opened, leased.reported, leased.lastTake, leased.since, leased.waits⟩
    · rw [oldest]
      simp [AgeRecord.tick]
    · rw [after]
      simp [AgeRecord.tick]
    · intro bound _
      simp [AgeRecord.tick, bound]

theorem Follows.step (follows : s.Follows spec) {event : AgeEvent}
    (timely : s.Timely spec event) (stepped : s.step spec event = some next) :
    next.Follows spec := by
  cases event with
  | tick nowUs =>
    cases stepped
    exact (follows.tick timely rfl).2.2
  | _ =>
    apply follows.between _ stepped
    intro nowUs other
    cases other

end

/-- In every run whose ticks are timely, a tick returns silence exactly when it is due and the age
verdict exactly when that is, and never are both. -/
theorem age_rules_exact (spec : AgeMonitorSpec) (events : List AgeEvent) (nowUs : UInt64)
    (s : AgeRun) (timely : Along (AgeRun.step spec) (AgeRun.Timely spec) AgeRun.start
      (events ++ [.tick nowUs]))
    (reached : run (AgeRun.step spec) AgeRun.start events = some s) :
    let verdict := (checkAge spec s.cell s.state (some nowUs)).1
    (returns "silence-runtime" verdict = true ↔ s.SilenceDue spec (nowUs.toNat / 1000)) ∧
      (returns "max-age-runtime" verdict = true ↔ s.AgeDue spec) ∧
      ¬ (s.SilenceDue spec (nowUs.toNat / 1000) ∧ s.AgeDue spec) := by
  have follows : s.Follows spec := by
    refine run_invariant_along ?_ _ s events Follows.start (along_left timely) reached
    exact fun _ _ _ before met stepped => before.step met stepped
  have exact_ := follows.tick (along_at timely s reached) rfl
  exact ⟨exact_.1, exact_.2.1, fun both => follows.apart both.1 both.2⟩

def scanAge : AgeMonitorSpec := ⟨"/scan", "/perc/detector/scan", 100, 0⟩

/-- A stale take, then nothing for 120 ms. -/
def staleThenSilent : List AgeEvent :=
  [.observe 1000000000 1000250000, .tick 0, .tick 50000]

theorem age_rules_exact_scan :
    let s := ((run (AgeRun.step scanAge) AgeRun.start staleThenSilent).getD AgeRun.start)
    returns "silence-runtime" (checkAge scanAge s.cell s.state (some 120000)).1 = true ↔
      s.SilenceDue scanAge 120 :=
  (age_rules_exact scanAge staleThenSilent 120000 _ (by decide +kernel) rfl).1

/-- A window of almost the whole range of the clock, and ticks a third of it apart. -/
def longLease : AgeMonitorSpec := ⟨"/map", "/nav/planner/map", 4294967295, 0⟩

/-- The wait runs past the range of the clock before a tick finds the window over. -/
theorem age_rules_wrap : ¬ ∀ (spec : AgeMonitorSpec) (events : List AgeEvent) (nowUs : UInt64)
    (s : AgeRun),
    Along (AgeRun.step spec) (AgeRun.Spaced spec) AgeRun.start (events ++ [.tick nowUs]) →
    run (AgeRun.step spec) AgeRun.start events = some s →
    (returns "silence-runtime" (checkAge spec s.cell s.state (some nowUs)).1 = true ↔
      s.SilenceDue spec (nowUs.toNat / 1000)) := by
  intro all
  have due := (all longLease [.tick 0, .tick 2147483647000, .tick 4294967294000] 6442450941000 _
    (by decide +kernel) rfl).mpr (by decide +kernel)
  revert due
  decide +kernel

end AgeRun

end NanoRos
