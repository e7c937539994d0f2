import Mathlib.Algebra.Order.Floor.Div
import Mathlib.Order.Bounds.Basic
import NanoRos.Node.SpinSteps

/-! How long a spin waits (`owned_prelude`). -/

namespace NanoRos

inductive WakeSourceId where
  | callerBudget
  | session
  | timer
  | routeDeadline
  | platform (slot : Nat)
  deriving DecidableEq

/-- The features that decide which wait a spin has. -/
inductive PreludeBuild where
  | allocWithCffi
  | alloc
  | bare
  deriving DecidableEq

/-- What a spin finds when it comes to its wait. A wake source answers with the time to its next
deadline; a park answers when it is asked. -/
structure Prelude where
  build : PreludeBuild
  executor : SpinExecutor
  band : SlotMask
  gridBudgetUs : UInt64
  sessionMs : Option UInt32
  sinceLastSpinEndUs : UInt64
  routeDueUs : Option UInt64
  wakeSources : List (Option UInt64)
  asyncWakeLive : Bool
  nodeWake : Bool
  waitableHandles : Nat
  parkHandles : Option Bool
  parkGranularityDeclaredUs : UInt64
  parkPrimitive : Option Int
  wakeFlag : Bool

def TimerClockSource.remainingIsWallTime : TimerClockSource → Bool
  | .steady | .system => true
  | .ros => false

/-- What the timer in a slot owes the park. -/
def SpinExecutor.timerRemaining (s : SpinExecutor) (mask : SlotMask) (i : Nat) : Option Nat :=
  match (s.entries i).map CallbackMeta.body with
  | some (.timer header) =>
    if !mask.has i || s.held i || header.cancelled || decide (header.periodUs = 0) ||
        (header.oneshot && header.fired) || !header.clockSource.remainingIsWallTime then none
    else some (header.periodUs - header.elapsedUs)
  | _ => none

def sooner (soonest : Option Nat) (remaining : Nat) : Nat :=
  match soonest with
  | some cur => min cur remaining
  | none => remaining

/-- The loop over the slots; a timer that is due ends it. -/
def SpinExecutor.nextTimerDeadlineIn (s : SpinExecutor) (mask : SlotMask) :
    List Nat → Option Nat → Option Nat
  | [], soonest => soonest
  | i :: rest, soonest =>
    match s.timerRemaining mask i with
    | none => s.nextTimerDeadlineIn mask rest soonest
    | some remaining =>
      let soonest := some (sooner soonest remaining)
      if remaining = 0 then soonest else s.nextTimerDeadlineIn mask rest soonest

namespace Prelude

def nextTimerDeadlineUs (p : Prelude) : Option Nat :=
  p.executor.nextTimerDeadlineIn p.band (List.range 64) none

def sessionUs (p : Prelude) : Option Nat :=
  p.sessionMs.map fun next => saturatingMul next.toNat 1000

/-- `u64::MAX` is an answer for no deadline. -/
def platformDues (p : Prelude) : List (Nat × WakeSourceId) :=
  p.wakeSources.zipIdx.filterMap fun slot =>
    match slot.1 with
    | some due => if due.toNat ≠ u64Max then some (due.toNat, .platform slot.2) else none
    | none => none

/-- The deadlines beside the budget, in the order they are looked at. -/
def candidates (p : Prelude) : List (Nat × WakeSourceId) :=
  (p.sessionUs.map fun us => (us, WakeSourceId.session)).toList ++
    (p.nextTimerDeadlineUs.map fun us =>
      (us - p.sinceLastSpinEndUs.toNat, WakeSourceId.timer)).toList ++
    (p.routeDueUs.map fun us => (us.toNat, WakeSourceId.routeDeadline)).toList ++ p.platformDues

def nextWakeBoundAttributedUs (p : Prelude) : Nat × WakeSourceId :=
  p.candidates.foldl (fun best next => if next.1 < best.1 then next else best)
    (p.gridBudgetUs.toNat, .callerBudget)

def parkCanBeWoken (p : Prelude) : Bool :=
  match p.build with
  | .allocWithCffi => p.asyncWakeLive
  | .alloc | .bare => true

def parkGranularityUs (p : Prelude) : Nat :=
  if p.parkGranularityDeclaredUs ≠ 0 ∧ p.parkPrimitive.isSome = true ∧ p.parkCanBeWoken = true then
    p.parkGranularityDeclaredUs.toNat
  else 1000

def roundParkUpUs (p : Prelude) (requestedUs : Nat) : Nat :=
  if requestedUs = 0 then 0
  else
    let g := p.parkGranularityUs
    if g ≤ 1 then requestedUs else saturatingMul (requestedUs ⌈/⌉ g) g

def i32Max : Nat := 2 ^ 31 - 1

/-- The waits of a spin: the park that was accepted, the wait on the wake object, and the drive of
the session. -/
structure Waits where
  parkUs : Option Nat
  wakeMs : Option Nat
  driveMs : Nat
  deriving DecidableEq

def handleParked (p : Prelude) (achievedUs : Nat) : Bool :=
  decide (p.build = .allocWithCffi) && decide (0 < achievedUs) && p.nodeWake &&
    decide (0 < p.waitableHandles) && p.parkHandles.isSome

/-- A negative answer of the primitive is a park that was not made. -/
def primitiveParked (p : Prelude) (achievedUs : Nat) : Bool :=
  match p.parkPrimitive with
  | some rc => decide (0 < achievedUs) && p.parkCanBeWoken && decide (0 ≤ rc)
  | none => false

def parkAchievedUs (p : Prelude) : Nat := p.roundParkUpUs p.nextWakeBoundAttributedUs.1

def ownedPrelude (p : Prelude) : Waits :=
  let achievedUs := p.parkAchievedUs
  let parked := p.handleParked achievedUs || p.primitiveParked achievedUs
  let timeoutMs := if parked then 0 else min (achievedUs / 1000) i32Max
  let parkUs := if parked then some achievedUs else none
  match p.build with
  | .allocWithCffi =>
    if p.wakeFlag then ⟨parkUs, if p.nodeWake then some 0 else none, 0⟩
    else if p.nodeWake then ⟨parkUs, if parked then none else some timeoutMs, 0⟩
    else ⟨parkUs, none, timeoutMs⟩
  | .alloc => ⟨parkUs, none, 0⟩
  | .bare => ⟨parkUs, none, timeoutMs⟩

/-! ### The bound -/

theorem foldl_least (candidates : List (Nat × WakeSourceId)) (best : Nat × WakeSourceId) :
    candidates.foldl (fun best next => if next.1 < best.1 then next else best) best ∈
        best :: candidates ∧
      ∀ c ∈ best :: candidates,
        (candidates.foldl (fun best next => if next.1 < best.1 then next else best) best).1 ≤
          c.1 := by
  induction candidates generalizing best with
  | nil => simp
  | cons next candidates ih =>
    rw [List.foldl_cons]
    rcases ih (if next.1 < best.1 then next else best) with ⟨member, least⟩
    constructor
    · rcases List.mem_cons.mp member with first | later
      · rw [first]
        split
        · simp
        · simp
      · exact List.mem_cons_of_mem _ (List.mem_cons_of_mem _ later)
    · have head := least _ List.mem_cons_self
      intro c listed
      rcases List.mem_cons.mp listed with rfl | listed
      · apply head.trans
        split
        case isTrue less => exact less.le
        case isFalse => exact Nat.le_refl _
      · rcases List.mem_cons.mp listed with rfl | listed
        · apply head.trans
          split
          case isTrue => exact Nat.le_refl _
          case isFalse more => exact Nat.not_lt.mp more
        · exact least c (List.mem_cons_of_mem _ listed)

/-- The least of some deadlines, if there are any. -/
structure Soonest (due : Nat → Prop) (found : Option Nat) : Prop where
  member : ∀ us, found = some us → due us
  least : ∀ us, due us → ∃ soon, found = some soon ∧ soon ≤ us

theorem Soonest.or {first rest : Nat → Prop} {some_ found : Option Nat}
    (head : Soonest first some_) (tail : Soonest (fun us => some_ = some us ∨ rest us) found) :
    Soonest (fun us => first us ∨ rest us) found where
  member us here := by
    rcases tail.member us here with before | later
    · exact .inl (head.member us before)
    · exact .inr later
  least us either := by
    rcases either with before | later
    · rcases head.least us before with ⟨soon, here, less⟩
      rcases tail.least soon (.inl here) with ⟨sooner, found, lesser⟩
      exact ⟨sooner, found, lesser.trans less⟩
    · exact tail.least us (.inr later)

theorem soonest_timer (s : SpinExecutor) (mask : SlotMask) (slots : List Nat)
    (soonest : Option Nat) :
    Soonest (fun us => soonest = some us ∨ ∃ i ∈ slots, s.timerRemaining mask i = some us)
      (s.nextTimerDeadlineIn mask slots soonest) := by
  induction slots generalizing soonest with
  | nil =>
    rw [SpinExecutor.nextTimerDeadlineIn]
    constructor
    · exact fun us here => .inl here
    · rintro us (here | ⟨_, listed, _⟩)
      · exact ⟨us, here, Nat.le_refl us⟩
      · cases listed
  | cons i slots ih =>
    rw [SpinExecutor.nextTimerDeadlineIn]
    simp only [List.mem_cons, or_and_right, exists_or, exists_eq_left]
    cases owed : s.timerRemaining mask i with
    | none => simpa using ih soonest
    | some remaining =>
      have first : Soonest (fun us => soonest = some us ∨ some remaining = some us)
          (some (sooner soonest remaining)) := by
        cases soonest with
        | none => exact ⟨fun us here => .inr here, by simp [sooner]⟩
        | some cur =>
          constructor
          · intro us here
            rcases min_choice cur remaining with same | same
            · exact .inl (same ▸ here)
            · exact .inr (same ▸ here)
          · rintro us (here | here)
            · exact ⟨_, rfl, (min_le_left _ _).trans_eq (Option.some.inj here)⟩
            · exact ⟨_, rfl, (min_le_right _ _).trans_eq (Option.some.inj here)⟩
      simp only [← or_assoc]
      generalize sooner soonest remaining = cur at first ⊢
      split
      case isTrue due =>
        rcases first.least remaining (.inr rfl) with ⟨soon, here, less⟩
        cases here
        rw [due, Nat.le_zero] at less
        subst less
        exact ⟨fun us here => .inl (first.member us here), fun us _ => ⟨0, rfl, Nat.zero_le us⟩⟩
      case isFalse => exact first.or (ih _)

/-- The deadlines a spin may not sleep past: the budget, the session's next event, each timer's
rest since the last spin, the next route, and what the platform's sources answer. -/
def IsSource (p : Prelude) (us : Nat) : Prop :=
  us = p.gridBudgetUs.toNat ∨ p.sessionUs = some us ∨
    (∃ i < 64, ∃ remaining, p.executor.timerRemaining p.band i = some remaining ∧
      us = remaining - p.sinceLastSpinEndUs.toNat) ∨
    (∃ due, p.routeDueUs = some due ∧ us = due.toNat) ∨
    ∃ due, some due ∈ p.wakeSources ∧ due.toNat ≠ u64Max ∧ us = due.toNat

theorem mem_platformDues {p : Prelude} {us : Nat} : (∃ id, (us, id) ∈ p.platformDues) ↔
      ∃ due, some due ∈ p.wakeSources ∧ due.toNat ≠ u64Max ∧ us = due.toNat := by
  simp only [platformDues, List.mem_filterMap]
  constructor
  · rintro ⟨id, ⟨slot, index⟩, listed, answer⟩
    have there := List.fst_mem_of_mem_zipIdx listed
    cases slot with
    | none => cases answer
    | some due =>
      dsimp only at answer
      split at answer
      case isTrue finite =>
        cases answer
        exact ⟨due, there, finite, rfl⟩
      case isFalse => cases answer
  · rintro ⟨due, there, finite, rfl⟩
    rcases List.mem_iff_getElem?.mp there with ⟨index, here⟩
    refine ⟨.platform index, (some due, index), List.mk_mem_zipIdx_iff_getElem?.mpr here, ?_⟩
    simp [finite]

theorem mem_candidates {p : Prelude} {us : Nat} :
    (∃ id, (us, id) ∈ p.candidates) ↔ p.sessionUs = some us ∨
      (∃ soon, p.nextTimerDeadlineUs = some soon ∧ us = soon - p.sinceLastSpinEndUs.toNat) ∨
      (∃ due, p.routeDueUs = some due ∧ us = due.toNat) ∨
      ∃ due, some due ∈ p.wakeSources ∧ due.toNat ≠ u64Max ∧ us = due.toNat := by
  rw [← mem_platformDues]
  simp only [candidates, List.mem_append, Option.mem_toList, Option.map_eq_some_iff, Prod.mk.injEq]
  constructor
  · rintro ⟨id, ((⟨_, here, rfl, _⟩ | ⟨soon, here, rfl, _⟩) | ⟨due, here, rfl, _⟩) | listed⟩
    · exact .inl here
    · exact .inr (.inl ⟨soon, here, rfl⟩)
    · exact .inr (.inr (.inl ⟨due, here, rfl⟩))
    · exact .inr (.inr (.inr ⟨id, listed⟩))
  · rintro (here | ⟨soon, here, rfl⟩ | ⟨due, here, rfl⟩ | ⟨id, listed⟩)
    · exact ⟨_, .inl (.inl (.inl ⟨us, here, rfl, rfl⟩))⟩
    · exact ⟨_, .inl (.inl (.inr ⟨soon, here, rfl, rfl⟩))⟩
    · exact ⟨_, .inl (.inr ⟨due, here, rfl, rfl⟩)⟩
    · exact ⟨id, .inr listed⟩

theorem bound_isLeast (p : Prelude) :
    IsLeast {us | p.IsSource us} p.nextWakeBoundAttributedUs.1 := by
  have timers := soonest_timer p.executor p.band (List.range 64) none
  rcases foldl_least p.candidates (p.gridBudgetUs.toNat, .callerBudget) with ⟨member, least⟩
  rw [nextWakeBoundAttributedUs]
  generalize p.candidates.foldl (fun best next => if next.1 < best.1 then next else best)
    (p.gridBudgetUs.toNat, .callerBudget) = best at member least
  rcases best with ⟨bound, id⟩
  have below : ∀ us, (∃ id, (us, id) ∈ p.candidates) → bound ≤ us := by
    rintro us ⟨id, listed⟩
    exact least (us, id) (List.mem_cons_of_mem _ listed)
  constructor
  · rcases List.mem_cons.mp member with same | listed
    · exact .inl (congrArg Prod.fst same)
    · rcases mem_candidates.mp ⟨id, listed⟩ with here | ⟨soon, here, rfl⟩ | rest
      · exact .inr (.inl here)
      · rcases timers.member soon here with before | ⟨i, inside, owed⟩
        · cases before
        · exact .inr (.inr (.inl ⟨i, List.mem_range.mp inside, soon, owed, rfl⟩))
      · exact .inr (.inr (.inr rest))
  · rintro us (rfl | here | ⟨i, inside, remaining, owed, rfl⟩ | rest)
    · exact least _ List.mem_cons_self
    · exact below us (mem_candidates.mpr (.inl here))
    · rcases timers.least remaining (.inr ⟨i, List.mem_range.mpr inside, owed⟩) with
        ⟨soon, here, less⟩
      apply (below _ (mem_candidates.mpr (.inr (.inl ⟨soon, here, rfl⟩)))).trans
      exact Nat.sub_le_sub_right less _
    · exact below us (mem_candidates.mpr (.inr (.inr rest)))

/-! ### The wait -/

/-- What the waits that were asked for come to. -/
def Waits.totalUs (waits : Waits) : Nat :=
  waits.parkUs.getD 0 + 1000 * waits.wakeMs.getD 0 + 1000 * waits.driveMs

/-- The granule of the primitive that waits. -/
def granuleUs (p : Prelude) : Nat :=
  if p.ownedPrelude.parkUs.isSome then p.parkGranularityUs else 1000

/-- A wake that came before the wait; without `alloc` there is no flag for one. -/
def wakePending (p : Prelude) : Bool := decide (p.build ≠ .bare) && p.wakeFlag

/-- A bound of zero does not block, and one that is not is waited for within a granule. -/
def WaitsFor (p : Prelude) (boundUs : Nat) : Prop :=
  (boundUs = 0 → p.ownedPrelude.totalUs = 0) ∧ (0 < boundUs → p.wakePending = false →
      boundUs ≤ p.ownedPrelude.totalUs ∧ p.ownedPrelude.totalUs < boundUs + p.granuleUs)

/-- The platform accepts a park of a positive length. -/
def Accepts (p : Prelude) : Prop :=
  (p.build = .allocWithCffi ∧ p.nodeWake = true ∧ 0 < p.waitableHandles ∧
      p.parkHandles.isSome = true) ∨
    p.parkCanBeWoken = true ∧ ∃ rc, p.parkPrimitive = some rc ∧ 0 ≤ rc

theorem ceilDiv_bounds (n : Nat) {d : Nat} (positive : 0 < d) :
    n ≤ n ⌈/⌉ d * d ∧ n ⌈/⌉ d * d < n + d := by
  rw [Nat.ceilDiv_eq_add_pred_div]
  have parts := Nat.div_add_mod (n + d - 1) d
  have low := Nat.mod_lt (n + d - 1) positive
  rw [Nat.mul_comm] at parts
  omega

variable {p : Prelude} {boundUs : Nat}

theorem parkGranularityUs_pos (p : Prelude) : 0 < p.parkGranularityUs := by
  rw [parkGranularityUs]
  split
  case isTrue declared =>
    rw [Nat.pos_iff_ne_zero]
    intro zero
    exact declared.1 (UInt64.toNat_inj.mp zero)
  case isFalse => decide

theorem roundParkUpUs_eq (some_ : 0 < boundUs) (fits : boundUs ≤ u64Max) :
    p.roundParkUpUs boundUs =
      min (boundUs ⌈/⌉ p.parkGranularityUs * p.parkGranularityUs) u64Max := by
  have positive := p.parkGranularityUs_pos
  rw [roundParkUpUs, if_neg some_.ne']
  dsimp only
  split
  case isTrue fine =>
    have one : p.parkGranularityUs = 1 := Nat.le_antisymm fine positive
    rw [one, ceilDiv_one, Nat.mul_one, Nat.min_eq_left fits]
  case isFalse => rfl

theorem parked_iff (p : Prelude) :
    (p.handleParked p.parkAchievedUs || p.primitiveParked p.parkAchievedUs) = true ↔
      0 < p.parkAchievedUs ∧ p.Accepts := by
  rw [Bool.or_eq_true, Accepts, handleParked, primitiveParked]
  cases p.parkPrimitive with
  | none => simp; tauto
  | some rc => simp; tauto

theorem total_of_parked (accepts : p.Accepts) (some_ : 0 < p.parkAchievedUs) :
    p.ownedPrelude.totalUs = p.parkAchievedUs ∧ p.granuleUs = p.parkGranularityUs := by
  have parked := p.parked_iff.mpr ⟨some_, accepts⟩
  rw [granuleUs, Waits.totalUs, ownedPrelude]
  simp only [parked, if_true]
  cases p.build with
  | allocWithCffi =>
    cases p.wakeFlag with
    | false | true => cases p.nodeWake <;> simp
  | alloc => simp
  | bare => simp

theorem total_of_unparked (unparked : ¬ (0 < p.parkAchievedUs ∧ p.Accepts))
    (unwoken : p.wakePending = false ∨ p.parkAchievedUs = 0) :
    p.ownedPrelude.totalUs =
        (if p.build = .alloc then 0 else 1000 * min (p.parkAchievedUs / 1000) i32Max) ∧
      p.granuleUs = 1000 := by
  have parked := Bool.eq_false_iff.mpr (mt p.parked_iff.mp unparked)
  rw [granuleUs, Waits.totalUs, ownedPrelude]
  rw [wakePending] at unwoken
  simp only [parked]
  cases build : p.build with
  | allocWithCffi =>
    rcases unwoken with unwoken | zero
    · have calm : p.wakeFlag = false := by simpa [build] using unwoken
      cases p.nodeWake <;> simp [calm]
    · cases p.wakeFlag with
      | false | true => cases p.nodeWake <;> simp [zero]
  | alloc => simp
  | bare => simp

/-- Whole milliseconds reach a bound and stay within one of it exactly if they are the bound rounded
up. -/
theorem ms_waits_iff (boundUs ms : Nat) :
    (boundUs ≤ 1000 * ms ∧ 1000 * ms < boundUs + 1000) ↔ ms = boundUs ⌈/⌉ 1000 := by
  have bounds := ceilDiv_bounds boundUs (d := 1000) (by decide)
  omega

theorem min_ms (us : Nat) : min (min us u64Max / 1000) i32Max = min (us / 1000) i32Max := by
  rw [u64Max, i32Max]
  omega

/-- Every bound that is zero, met by a wake or parked for; of the others, those that are as many
milliseconds when they are rounded to the granularity and cut as when they are rounded up. -/
theorem waits_for_iff (p : Prelude) (boundUs : Nat) (least : IsLeast {us | p.IsSource us} boundUs) :
    p.WaitsFor boundUs ↔ boundUs = 0 ∨ p.wakePending = true ∨ p.Accepts ∨ (p.build ≠ .alloc ∧
        min (boundUs ⌈/⌉ p.parkGranularityUs * p.parkGranularityUs / 1000) i32Max =
          boundUs ⌈/⌉ 1000) := by
  have same : p.nextWakeBoundAttributedUs.1 = boundUs := p.bound_isLeast.unique least
  have fits : boundUs ≤ u64Max := by
    have small := p.gridBudgetUs.toNat_lt
    have budget := least.2 (.inl rfl)
    rw [u64Max]
    omega
  rcases Nat.eq_zero_or_pos boundUs with zero | some_
  · have nothing : p.parkAchievedUs = 0 := by
      rw [parkAchievedUs, same, zero, roundParkUpUs, if_pos rfl]
    have total := (total_of_unparked (fun both => by omega) (.inr nothing)).1
    rw [nothing] at total
    refine iff_of_true ⟨fun _ => ?_, fun positive => by omega⟩ (.inl zero)
    simpa using total
  have bounds := ceilDiv_bounds boundUs p.parkGranularityUs_pos
  have achieved : p.parkAchievedUs =
      min (boundUs ⌈/⌉ p.parkGranularityUs * p.parkGranularityUs) u64Max := by
    rw [parkAchievedUs, same, roundParkUpUs_eq some_ fits]
  have positive : 0 < p.parkAchievedUs := by omega
  by_cases accepts : p.Accepts
  · rcases total_of_parked accepts positive with ⟨total, granule⟩
    refine iff_of_true ⟨fun zero => absurd zero some_.ne', fun _ _ => ?_⟩ ?_
    case refine_2 => exact .inr (.inr (.inl accepts))
    rw [total, granule, achieved]
    omega
  cases woken : p.wakePending with
  | true =>
    refine iff_of_true ⟨fun zero => absurd zero some_.ne', fun _ calm => ?_⟩ (.inr (.inl rfl))
    rw [woken] at calm
    cases calm
  | false =>
    rcases total_of_unparked (fun both => accepts both.2) (.inl woken) with ⟨total, granule⟩
    have waits : p.WaitsFor boundUs ↔
        boundUs ≤ p.ownedPrelude.totalUs ∧ p.ownedPrelude.totalUs < boundUs + 1000 := by
      rw [WaitsFor, granule]
      constructor
      · exact fun both => both.2 some_ woken
      · exact fun both => ⟨fun zero => absurd zero some_.ne', fun _ _ => both⟩
    rw [waits, total, achieved, min_ms]
    by_cases build : p.build = .alloc
    · rw [if_pos build]
      simp [some_.ne', accepts, build]
    · rw [if_neg build, ms_waits_iff]
      simp [some_.ne', accepts, build]

/-- Half a millisecond of budget and no other deadline, on a wake object. -/
def halfMillisecond (parkPrimitive : Option Int) : Prelude where
  build := .allocWithCffi
  executor := SpinExecutor.fresh (fun _ => none) fun _ => none
  band := BitVec.allOnes 64
  gridBudgetUs := 500
  sessionMs := none
  sinceLastSpinEndUs := 0
  routeDueUs := none
  wakeSources := []
  asyncWakeLive := true
  nodeWake := true
  waitableHandles := 0
  parkHandles := none
  parkGranularityDeclaredUs := 1
  parkPrimitive := parkPrimitive
  wakeFlag := false

theorem waits_for_half_millisecond : (halfMillisecond none).WaitsFor 500 ∧
      (halfMillisecond none).ownedPrelude = ⟨none, some 1, 0⟩ := by
  have bound : (halfMillisecond none).nextWakeBoundAttributedUs.1 = 500 := by decide +kernel
  have least := (halfMillisecond none).bound_isLeast
  rw [bound] at least
  refine ⟨(waits_for_iff _ 500 least).mpr ?_, by decide +kernel⟩
  exact .inr (.inr (.inr ⟨by decide, by decide +kernel⟩))

/-- A park of microseconds declines, and the spin waits on the wake object for no time at all. -/
theorem declined_park_polls :
    ¬ ∀ (p : Prelude) (boundUs : Nat), IsLeast {us | p.IsSource us} boundUs →
      p.WaitsFor boundUs := by
  intro all
  have bound : (halfMillisecond (some (-1))).nextWakeBoundAttributedUs.1 = 500 := by decide +kernel
  have least := (halfMillisecond (some (-1))).bound_isLeast
  rw [bound] at least
  have waits : (halfMillisecond (some (-1))).ownedPrelude = ⟨none, some 0, 0⟩ := by decide +kernel
  have reached := ((all _ 500 least).2 (by decide) (by decide)).1
  rw [waits] at reached
  exact absurd reached (by decide)

end Prelude

end NanoRos
