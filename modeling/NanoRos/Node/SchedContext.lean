import NanoRos.Lib.Counters

/-! The scheduling contexts of the executor: classes, sporadic budgets and time-triggered windows.
-/

namespace NanoRos

inductive SchedClass where
  | fifo
  | edf
  | sporadic
  | bestEffort
  deriving DecidableEq

inductive DeadlineAction where
  | ignore
  | warn
  | skip
  | fault
  deriving DecidableEq

structure SchedContext where
  schedClass : SchedClass
  deadlineUs : UInt32
  deadlineAction : DeadlineAction
  ttWindowOffsetUs : UInt32
  ttWindowDurationUs : UInt32

/-- The polled budget of a sporadic context. -/
structure SporadicState where
  budgetRemainingUs : UInt32
  budgetCapacityUs : UInt32
  periodUs : UInt32
  lastRefillMs : Nat

/-- The budget a platform timer refills. -/
structure AtomicSporadicState where
  budgetRemainingUs : UInt32
  budgetCapacityUs : UInt32

/-- `u32::saturating_sub`. -/
def saturatingSub (a b : UInt32) : UInt32 := if a ≤ b then 0 else a - b

def SporadicState.refill (state : SporadicState) (nowMs : Nat) : SporadicState :=
  if state.periodUs.toNat / 1000 ≤ nowMs - state.lastRefillMs then
    { state with budgetRemainingUs := state.budgetCapacityUs, lastRefillMs := nowMs }
  else state

def SporadicState.consume (state : SporadicState) (us : UInt32) : SporadicState :=
  { state with budgetRemainingUs := saturatingSub state.budgetRemainingUs us }

def AtomicSporadicState.consume (state : AtomicSporadicState) (us : UInt32) :
    AtomicSporadicState :=
  { state with budgetRemainingUs := saturatingSub state.budgetRemainingUs us }

/-- `atomic_sporadic_refill_thunk`. -/
def AtomicSporadicState.refill (state : AtomicSporadicState) : AtomicSporadicState :=
  { state with budgetRemainingUs := state.budgetCapacityUs }

/-- The check the gate makes; `offset + duration` is a `u32` and wraps. -/
def inWindow (frame offset duration : UInt32) (nowUs : Nat) : Bool :=
  let phase := nowUs % frame.toNat
  if offset + duration ≤ frame then
    decide (offset.toNat ≤ phase ∧ phase < (offset + duration).toNat)
  else
    decide (offset.toNat ≤ phase ∨ phase < (offset.toNat + duration.toNat) % frame.toNat)

/-- The half-open interval `[offset, offset + duration)` modulo the major frame. -/
def InWindow (frame offset duration : UInt32) (nowUs : Nat) : Prop :=
  ∃ moment, offset.toNat ≤ moment ∧ moment < offset.toNat + duration.toNat ∧
    moment % frame.toNat = nowUs % frame.toNat

theorem inWindow_sound (frame offset duration : UInt32) (nowUs : Nat)
    (inside : offset < frame) (passes : inWindow frame offset duration nowUs = true) :
    InWindow frame offset duration nowUs := by
  have bound := duration.toNat_lt
  have below : offset.toNat < frame.toNat := UInt32.lt_iff_toNat_lt.mp inside
  have phase : nowUs % frame.toNat < frame.toNat := Nat.mod_lt _ (by omega)
  have total : (offset + duration).toNat ≤ offset.toNat + duration.toNat := by
    rw [UInt32.toNat_add]
    exact Nat.mod_le _ _
  have direct : offset.toNat ≤ nowUs % frame.toNat →
      nowUs % frame.toNat < offset.toNat + duration.toNat →
      InWindow frame offset duration nowUs := by
    intro low high
    exact ⟨nowUs % frame.toNat, low, high, Nat.mod_mod _ _⟩
  simp only [inWindow] at passes
  split at passes
  case isTrue =>
    have both := of_decide_eq_true passes
    exact direct both.1 (lt_of_lt_of_le both.2 total)
  case isFalse long =>
    have exceeds : frame.toNat < offset.toNat + duration.toNat := by
      rw [UInt32.le_iff_toNat_le] at long
      omega
    rcases of_decide_eq_true passes with low | wrapped
    · exact direct low (by omega)
    · have parts := Nat.div_add_mod (offset.toNat + duration.toNat) frame.toNat
      have once : 1 ≤ (offset.toNat + duration.toNat) / frame.toNat :=
        (Nat.one_le_div_iff (by omega)).mpr (by omega)
      have frames := Nat.mul_le_mul_left frame.toNat once
      refine ⟨frame.toNat * ((offset.toNat + duration.toNat) / frame.toNat) +
        nowUs % frame.toNat, by omega, by omega, ?_⟩
      rw [Nat.mul_add_mod, Nat.mod_mod]

end NanoRos
