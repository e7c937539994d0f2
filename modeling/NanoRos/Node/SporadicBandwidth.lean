import NanoRos.Lib.Runs
import NanoRos.Node.SchedContext

/-! The polled sporadic budget as a limit on bandwidth. -/

namespace NanoRos

/-- Of moments at least a period apart, with a thousand periods to their unit, so many lie in a
span. -/
theorem length_le_of_spaced {period first span : Nat} {moments : List Nat} (pos : 1 ≤ period)
    (spaced : moments.Pairwise fun later earlier => earlier * 1000 + period ≤ later * 1000)
    (within : ∀ t ∈ moments, first ≤ t ∧ t ≤ first + span) :
    moments.length ≤ span * 1000 / period + 1 := by
  cases moments with
  | nil => exact Nat.zero_le _
  | cons latest moments =>
    have reach : moments.length * period + first * 1000 ≤ latest * 1000 := by
      clear pos
      induction moments generalizing latest with
      | nil =>
        have := within latest List.mem_cons_self
        simp
        omega
      | cons earlier moments ih =>
        rw [List.pairwise_cons] at spaced
        have rest := ih earlier spaced.2 fun t member => within t (List.mem_cons_of_mem _ member)
        have gap := spaced.1 earlier List.mem_cons_self
        rw [List.length_cons, Nat.add_mul, one_mul]
        omega
    have inside := within latest List.mem_cons_self
    rw [List.length_cons, Nat.add_le_add_iff_right, Nat.le_div_iff_mul_le pos]
    omega

inductive SporadicCall where
  | refill (nowMs : UInt64)
  | consume (us : UInt32)
  deriving DecidableEq

/-- A sporadic budget with the moments at which it was replenished, the last one first. -/
structure SporadicLog where
  state : SporadicState
  grants : List Nat

namespace SporadicLog

def start (budgetUs periodUs : UInt32) : SporadicLog := ⟨⟨budgetUs, budgetUs, periodUs, 0⟩, []⟩

def step (log : SporadicLog) : SporadicCall → Option SporadicLog
  | .refill nowMs =>
    let grants :=
      if log.state.periodUs.toNat / 1000 ≤ nowMs.toNat - log.state.lastRefillMs then
        nowMs.toNat :: log.grants
      else log.grants
    some ⟨log.state.refill nowMs.toNat, grants⟩
  | .consume us => some { log with state := log.state.consume us }

/-- Successive replenishments are the period apart. -/
def Spaced (log : SporadicLog) : Prop :=
  log.grants.IsChain fun later earlier =>
    earlier < later ∧ log.state.periodUs.toNat ≤ (later - earlier) * 1000

instance (log : SporadicLog) : Decidable log.Spaced := inferInstanceAs (Decidable (List.IsChain _ _))

/-- The budget granted in the milliseconds from `first` to `first + span`. -/
def granted (log : SporadicLog) (first span : Nat) : Nat :=
  log.state.budgetCapacityUs.toNat *
    (log.grants.filter fun t => decide (first ≤ t ∧ t ≤ first + span)).length

/-- The refill does not take the whole milliseconds of the period for the period. -/
def onTime (log : SporadicLog) : SporadicCall → Prop
  | .refill nowMs => log.grants ≠ [] →
      log.state.periodUs.toNat / 1000 ≤ nowMs.toNat - log.state.lastRefillMs →
      log.state.periodUs.toNat ≤ (nowMs.toNat - log.state.lastRefillMs) * 1000
  | .consume _ => True

instance (log : SporadicLog) : ∀ call, Decidable (log.onTime call)
  | .refill _ => inferInstanceAs (Decidable (_ → _ → _))
  | .consume _ => inferInstanceAs (Decidable True)

/-- The moments of the refill calls ascend. -/
def Ascends (calls : List SporadicCall) : Prop :=
  (calls.filterMap fun
    | .refill nowMs => some nowMs
    | .consume _ => none).Pairwise (· ≤ ·)

instance (calls : List SporadicCall) : Decidable (Ascends calls) :=
  inferInstanceAs (Decidable (List.Pairwise _ _))

/-- The declaration does not change, and the last replenishment is the one that is remembered. -/
structure Declared (budgetUs periodUs : UInt32) (log : SporadicLog) : Prop where
  capacity : log.state.budgetCapacityUs = budgetUs
  period : log.state.periodUs = periodUs
  last : ∀ t, log.grants.head? = some t → log.state.lastRefillMs = t

variable {budgetUs periodUs : UInt32} {log next : SporadicLog} {call : SporadicCall}

theorem declared_start : (start budgetUs periodUs).Declared budgetUs periodUs :=
  ⟨rfl, rfl, nofun⟩

theorem step_cases (stepped : log.step call = some next) :
    next.state.budgetCapacityUs = log.state.budgetCapacityUs ∧
    next.state.periodUs = log.state.periodUs ∧
    ((next.grants = log.grants ∧ next.state.lastRefillMs = log.state.lastRefillMs ∧
        log.onTime call) ∨
      ∃ nowMs, call = .refill nowMs ∧
        log.state.periodUs.toNat / 1000 ≤ nowMs.toNat - log.state.lastRefillMs ∧
        next.grants = nowMs.toNat :: log.grants ∧ next.state.lastRefillMs = nowMs.toNat) := by
  cases call with
  | consume us =>
    cases stepped
    exact ⟨rfl, rfl, Or.inl ⟨rfl, rfl, trivial⟩⟩
  | refill nowMs =>
    by_cases due : log.state.periodUs.toNat / 1000 ≤ nowMs.toNat - log.state.lastRefillMs
    · simp only [step, SporadicState.refill, if_pos due] at stepped
      cases stepped
      exact ⟨rfl, rfl, Or.inr ⟨nowMs, rfl, due, rfl, rfl⟩⟩
    · simp only [step, SporadicState.refill, if_neg due] at stepped
      cases stepped
      exact ⟨rfl, rfl, Or.inl ⟨rfl, rfl, fun _ late => absurd late due⟩⟩

section

variable (declared : log.Declared budgetUs periodUs)
include declared

theorem Declared.called (stepped : log.step call = some next)
    : next.Declared budgetUs periodUs := by
  rcases step_cases stepped with ⟨capacity, period, ⟨grants, last, -⟩ | ⟨nowMs, -, -, grants, last⟩⟩
  · refine ⟨capacity.trans declared.capacity, period.trans declared.period, ?_⟩
    rw [grants, last]
    exact declared.last
  · refine ⟨capacity.trans declared.capacity, period.trans declared.period, ?_⟩
    intro t first
    rw [grants] at first
    cases first
    exact last

theorem Declared.spaced_step_iff (pos : 1 ≤ periodUs.toNat) (stepped : log.step call = some next) :
    next.Spaced ↔ log.onTime call ∧ log.Spaced := by
  rcases step_cases stepped with
    ⟨-, period, ⟨grants, -, punctual⟩ | ⟨nowMs, rfl, due, grants, -⟩⟩
  · rw [Spaced, Spaced, grants, period]
    exact (and_iff_right punctual).symm
  · rw [Spaced, Spaced, grants, period, List.isChain_cons]
    refine and_congr_left' ?_
    cases earlier : log.grants.head? with
    | none =>
      have none_ := List.head?_eq_none_iff.mp earlier
      simp [onTime, none_]
    | some t =>
      have some_ : log.grants ≠ [] := by
        intro none_
        simp [none_] at earlier
      have last := declared.last t earlier
      rw [declared.period, last] at due
      simp only [onTime, ne_eq, some_, not_false_eq_true, forall_const, last, declared.period,
        Option.mem_some_iff, forall_eq']
      constructor
      · exact fun gap _ => gap.2
      · intro gap
        have apart := gap due
        exact ⟨by omega, apart⟩

theorem Declared.spaced_iff (pos : 1 ≤ periodUs.toNat) (calls : List SporadicCall)
    (last : SporadicLog) (reached : run step log calls = some last) :
    last.Spaced ↔ Along step onTime log calls ∧ log.Spaced := by
  induction calls generalizing log with
  | nil =>
    cases reached
    exact (and_iff_right trivial).symm
  | cons call calls ih =>
    rcases Option.bind_eq_some_iff.mp reached with ⟨next, stepped, rest⟩
    rw [ih (declared.called stepped) rest, along_cons_iff _ _ _ _ stepped,
      declared.spaced_step_iff pos stepped]
    tauto

theorem Declared.granted_le (pos : 1 ≤ periodUs.toNat) (spaced : log.Spaced) (first span : Nat) :
    log.granted first span ≤ budgetUs.toNat * (span * 1000 / periodUs.toNat + 1) := by
  have scaled : log.grants.IsChain fun later earlier =>
      earlier * 1000 + periodUs.toNat ≤ later * 1000 := by
    refine List.IsChain.imp ?_ spaced
    intro later earlier apart
    rw [declared.period] at apart
    omega
  have : Trans (fun later earlier : Nat => earlier * 1000 + periodUs.toNat ≤ later * 1000)
      (fun later earlier => earlier * 1000 + periodUs.toNat ≤ later * 1000)
      (fun later earlier => earlier * 1000 + periodUs.toNat ≤ later * 1000) := by
    constructor
    intro latest later earlier above below
    exact (below.trans (Nat.le_add_right _ _)).trans above
  have pairs : log.grants.Pairwise fun later earlier =>
      earlier * 1000 + periodUs.toNat ≤ later * 1000 := List.isChain_iff_pairwise.mp scaled
  have within : ∀ t ∈ log.grants.filter fun t => decide (first ≤ t ∧ t ≤ first + span),
      first ≤ t ∧ t ≤ first + span := by
    intro t member
    exact of_decide_eq_true (List.mem_filter.mp member).2
  rw [granted, declared.capacity]
  exact Nat.mul_le_mul_left _ (length_le_of_spaced pos (pairs.filter _) within)

end

theorem along_onTime_of_dvd {calls : List SporadicCall} (whole : 1000 ∣ periodUs.toNat)
    (declared : log.Declared budgetUs periodUs) : Along step onTime log calls := by
  have keeps : ∀ call ∈ calls, ∀ log next : SporadicLog, log.Declared budgetUs periodUs →
      log.step call = some next → next.Declared budgetUs periodUs :=
    fun _ _ _ _ declared stepped => declared.called stepped
  refine along_of_invariant keeps ?_ log declared
  intro call _ log declared
  cases call with
  | consume us => trivial
  | refill nowMs =>
    intro _ due
    rw [declared.period] at due ⊢
    omega

/-- Two refills, each as soon as the whole milliseconds of the period have passed. -/
def earlyCalls (periodUs : UInt32) : List SporadicCall :=
  [.refill (UInt64.ofNat (periodUs.toNat / 1000)),
    .refill (UInt64.ofNat (2 * (periodUs.toNat / 1000)))]

theorem dvd_of_along_onTime (budgetUs : UInt32)
    (met : Along step onTime (start budgetUs periodUs) (earlyCalls periodUs)) :
    1000 ∣ periodUs.toNat := by
  have small := periodUs.toNat_lt
  have first : (UInt64.ofNat (periodUs.toNat / 1000)).toNat = periodUs.toNat / 1000 :=
    UInt64.toNat_ofNat_of_lt' (by rw [UInt64.size]; omega)
  have second : (UInt64.ofNat (2 * (periodUs.toNat / 1000))).toNat = 2 * (periodUs.toNat / 1000) :=
    UInt64.toNat_ofNat_of_lt' (by rw [UInt64.size]; omega)
  have granted := (met.2 _ rfl).1
  simp only [onTime, start, SporadicState.refill, first, second, Nat.sub_zero, le_refl,
    if_true] at granted
  have apart := granted (List.cons_ne_nil _ _) (by omega)
  omega

/-- The replenishments of a run keep the period, and its grants the bandwidth, exactly when no
refill takes the whole milliseconds of the period for the period; no run does so exactly where the
period is whole milliseconds. -/
theorem replenishes_by_period_iff (budgetUs periodUs : UInt32) (pos : 1 ≤ periodUs.toNat) :
    (∀ calls log, run step (start budgetUs periodUs) calls = some log →
      ((log.Spaced ∧ ∀ first span, log.granted first span ≤
          budgetUs.toNat * (span * 1000 / periodUs.toNat + 1)) ↔
        Along step onTime (start budgetUs periodUs) calls)) ∧
    ((∀ calls, Ascends calls → Along step onTime (start budgetUs periodUs) calls) ↔
      1000 ∣ periodUs.toNat) := by
  constructor
  · intro calls log reached
    have declared : log.Declared budgetUs periodUs :=
      run_invariant (fun _ _ _ declared stepped => declared.called stepped) _ _ calls
        declared_start reached
    have spaced := declared_start.spaced_iff pos calls log reached
    rw [and_iff_left (show (start budgetUs periodUs).Spaced from List.isChain_nil)] at spaced
    rw [← spaced]
    exact and_iff_left_of_imp fun apart first span => declared.granted_le pos apart first span
  · constructor
    · intro always
      refine dvd_of_along_onTime budgetUs (always _ ?_)
      have small := periodUs.toNat_lt
      simp only [Ascends, earlyCalls, List.filterMap_cons, List.filterMap_nil,
        List.pairwise_cons, List.mem_singleton, forall_eq, List.not_mem_nil, false_imp_iff,
        implies_true, List.Pairwise.nil, and_true]
      rw [UInt64.le_iff_toNat_le, UInt64.toNat_ofNat_of_lt' (by rw [UInt64.size]; omega),
        UInt64.toNat_ofNat_of_lt' (by rw [UInt64.size]; omega)]
      omega
    · exact fun whole calls _ => along_onTime_of_dvd whole declared_start

theorem replenishes_by_period_ten_ms :
    1 ≤ (10000 : UInt32).toNat ∧ (∀ calls log, run step (start 5000 10000) calls = some log →
      ((log.Spaced ∧ ∀ first span, log.granted first span ≤
          (5000 : UInt32).toNat * (span * 1000 / (10000 : UInt32).toNat + 1)) ↔
        Along step onTime (start 5000 10000) calls)) ∧
    ((∀ calls, Ascends calls → Along step onTime (start 5000 10000) calls) ↔
      1000 ∣ (10000 : UInt32).toNat) :=
  ⟨by decide, replenishes_by_period_iff 5000 10000 (by decide)⟩

/-- A period of 1500 is refilled every millisecond, one of 999 in the same millisecond twice. -/
theorem replenishes_by_period_fails :
    Ascends [.refill 1, .consume 500, .refill 2, .refill 3] ∧
    (∃ log, run step (start 500 1500) [.refill 1, .consume 500, .refill 2, .refill 3] = some log ∧
      log.grants = [3, 2, 1] ∧ ¬ log.Spaced ∧ ¬ log.granted 1 2 ≤ 500 * (2 * 1000 / 1500 + 1)) ∧
    Ascends [.refill 1, .consume 500, .refill 1] ∧
    ∃ log, run step (start 500 999) [.refill 1, .consume 500, .refill 1] = some log ∧
      log.grants = [1, 1] ∧ ¬ log.Spaced := by
  refine ⟨by decide, ⟨_, rfl, rfl, ?_, by decide⟩, by decide, ⟨_, rfl, rfl, ?_⟩⟩ <;> decide

end SporadicLog

end NanoRos
