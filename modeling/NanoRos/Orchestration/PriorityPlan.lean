import Mathlib.Data.List.Basic
import Mathlib.Tactic

/-! The priority address plan of a board: the priorities of the kernel, the bands that are reserved,
and the pool the application is given. -/

namespace NanoRos

inductive Direction where
  | smallerIsUrgent
  | biggerIsUrgent
  deriving DecidableEq

namespace Direction

def MoreUrgent : Direction → Int → Int → Prop
  | .smallerIsUrgent, p, q => p < q
  | .biggerIsUrgent, p, q => q < p

def up : Direction → Int
  | .smallerIsUrgent => -1
  | .biggerIsUrgent => 1

theorem moreUrgent_iff (direction : Direction) (p q : Int) :
    direction.MoreUrgent p q ↔ 0 < (p - q) * direction.up := by
  cases direction with
  | smallerIsUrgent | biggerIsUrgent =>
    simp only [MoreUrgent, up]
    omega

theorem MoreUrgent.trans {direction : Direction} {p q r : Int}
    (first : direction.MoreUrgent p q) (second : direction.MoreUrgent q r) :
    direction.MoreUrgent p r := by
  cases direction with
  | smallerIsUrgent => exact lt_trans first second
  | biggerIsUrgent => exact lt_trans second first

theorem moreUrgent_irrefl (direction : Direction) (p : Int) : ¬ direction.MoreUrgent p p := by
  cases direction with
  | smallerIsUrgent => exact lt_irrefl p
  | biggerIsUrgent => exact lt_irrefl p

theorem MoreUrgent.asymm {direction : Direction} {p q : Int}
    (first : direction.MoreUrgent p q) : ¬ direction.MoreUrgent q p :=
  fun second => direction.moreUrgent_irrefl p (first.trans second)

end Direction

structure Band where
  lo : Int
  hi : Int
  deriving DecidableEq

namespace Band

def width (band : Band) : Nat := if band.hi < band.lo then 0 else (band.hi - band.lo + 1).toNat

def contains (band : Band) (p : Int) : Bool := decide (band.lo ≤ p) && decide (p ≤ band.hi)

theorem contains_iff (band : Band) (p : Int) :
    band.contains p = true ↔ band.lo ≤ p ∧ p ≤ band.hi := by
  rw [contains, Bool.and_eq_true, decide_eq_true_eq, decide_eq_true_eq]

theorem width_pos_iff (band : Band) : band.width ≠ 0 ↔ band.lo ≤ band.hi := by
  rw [width]
  split <;> omega

theorem lt_width_iff (band : Band) (k : Nat) : k < band.width ↔ band.lo + k ≤ band.hi := by
  rw [width]
  split <;> omega

end Band

/-- The reserved bands stand in the order of their names. -/
structure PriorityPlan where
  direction : Direction
  range : Band
  reserved : List (String × Band)
  app : Band

def nrosPlatformPriorityMax : Int := 255

/-- What is left of a value in an `i64`. -/
def wrapI64 (value : Int) : Int := Int.bmod value (2 ^ 64)

def bandToPosix (band numPreempt : Int) : Int :=
  let hi := numPreempt - 1
  if hi < 0 then 0
  else
    let n := max 0 (min band nrosPlatformPriorityMax)
    max 0 (min (Int.tdiv (wrapI64 (n * hi)) nrosPlatformPriorityMax) hi)

/-- `POSIX_TO_ZEPHYR_PRIORITY(prio, SCHED_RR)`. -/
def posixRrToKthread (posix numPreempt : Int) : Int := numPreempt - posix - 1

/-- The kernel priority of a transport thread created at a normalised band. -/
def transportPriority (numPreempt band : Int) : Int :=
  posixRrToKthread (bandToPosix band numPreempt) numPreempt

def zephyrPlan (numPreempt numCoop : Int) (transportBands : List Int) : PriorityPlan :=
  let ks := (transportBands.map (transportPriority numPreempt)).mergeSort
  let range := ⟨wrapI64 (-numCoop), numPreempt - 1⟩
  match ks.head?, ks.getLast? with
  | some lo, some hi =>
    ⟨.smallerIsUrgent, range, [("transport", ⟨lo, hi⟩)], ⟨hi + 1, numPreempt - 1⟩⟩
  | _, _ => ⟨.smallerIsUrgent, range, [], ⟨0, numPreempt - 1⟩⟩

namespace PriorityPlan

def nthAppPriority (plan : PriorityPlan) (k : Nat) : Option Int :=
  if plan.app.width ≤ k then none
  else
    match plan.direction with
    | .smallerIsUrgent => some (plan.app.lo + k)
    | .biggerIsUrgent => some (plan.app.hi - k)

def leastUrgentAppPriority (plan : PriorityPlan) : Option Int :=
  if plan.app.width = 0 then none
  else
    match plan.direction with
    | .smallerIsUrgent => some plan.app.hi
    | .biggerIsUrgent => some plan.app.lo

def reservedBandOf (plan : PriorityPlan) (priority : Int) : Option (String × Band) :=
  plan.reserved.find? fun band => band.2.contains priority

/-- The loop of `slots_above_transport`, for a number of turns. -/
def walk (plan : PriorityPlan) : Nat → Int → List Int
  | 0, _ => []
  | turns + 1, p =>
    if plan.reservedBandOf p = none then p :: walk plan turns (p + plan.direction.up)
    else walk plan turns (p + plan.direction.up)

def slotsAboveTransport (plan : PriorityPlan) : List Int :=
  match plan.reserved.lookup "transport" with
  | none => []
  | some t =>
    match plan.direction with
    | .smallerIsUrgent => plan.walk (t.lo - max plan.range.lo 0).toNat (t.lo - 1)
    | .biggerIsUrgent => plan.walk (plan.range.hi - t.hi).toNat (t.hi + 1)

variable {plan : PriorityPlan}

theorem contains_of_nthAppPriority {k : Nat} {p : Int} (given : plan.nthAppPriority k = some p) :
    plan.app.contains p = true := by
  rw [nthAppPriority] at given
  split at given
  case isTrue => cases given
  case isFalse room =>
    have inside := (plan.app.lt_width_iff k).mp (Nat.lt_of_not_le room)
    rw [Band.contains_iff]
    split at given
    · cases given
      omega
    · cases given
      omega

theorem contains_of_leastUrgentAppPriority {p : Int}
    (given : plan.leastUrgentAppPriority = some p) : plan.app.contains p = true := by
  rw [leastUrgentAppPriority] at given
  split at given
  case isTrue => cases given
  case isFalse some_ =>
    have inside := plan.app.width_pos_iff.mp some_
    rw [Band.contains_iff]
    split at given
    · cases given
      omega
    · cases given
      omega

theorem nthAppPriority_moreUrgent {k l : Nat} {p q : Int} (before : k < l)
    (first : plan.nthAppPriority k = some p) (second : plan.nthAppPriority l = some q) :
    plan.direction.MoreUrgent p q := by
  rw [nthAppPriority] at first second
  split at first
  case isTrue => cases first
  case isFalse =>
    split at second
    case isTrue => cases second
    case isFalse =>
      cases towards : plan.direction with
      | smallerIsUrgent =>
        rw [towards] at first second
        cases first
        cases second
        change plan.app.lo + (k : Int) < plan.app.lo + (l : Int)
        omega
      | biggerIsUrgent =>
        rw [towards] at first second
        cases first
        cases second
        change plan.app.hi - (l : Int) < plan.app.hi - (k : Int)
        omega

theorem nthAppPriority_none_iff (plan : PriorityPlan) (k : Nat) :
    plan.nthAppPriority k = none ↔ plan.app.width ≤ k := by
  rw [nthAppPriority]
  split
  case isTrue spent => exact ⟨fun _ => spent, fun _ => rfl⟩
  case isFalse room =>
    refine ⟨fun none_ => ?_, fun spent => absurd spent room⟩
    split at none_ <;> cases none_

theorem mem_walk {turns : Nat} {start p : Int} (member : p ∈ plan.walk turns start) :
    plan.reservedBandOf p = none ∧ ∃ k : Nat, k < turns ∧ p = start + k * plan.direction.up := by
  induction turns generalizing start with
  | zero => cases member
  | succ turns ih =>
    have later : p ∈ plan.walk turns (start + plan.direction.up) → plan.reservedBandOf p = none ∧
          ∃ k : Nat, k < turns + 1 ∧ p = start + k * plan.direction.up := by
      intro inside
      rcases ih inside with ⟨free, k, below, same⟩
      refine ⟨free, k + 1, by omega, ?_⟩
      rw [same]
      push_cast
      ring
    rw [walk] at member
    split at member
    case isTrue free =>
      rcases List.mem_cons.mp member with rfl | inside
      · exact ⟨free, 0, by omega, by simp⟩
      · exact later inside
    case isFalse => exact later member

theorem walk_pairwise (plan : PriorityPlan) (turns : Nat) (start : Int) :
    (plan.walk turns start).Pairwise fun p q => plan.direction.MoreUrgent q p := by
  induction turns generalizing start with
  | zero => exact List.Pairwise.nil
  | succ turns ih =>
    rw [walk]
    split
    case isTrue =>
      refine List.pairwise_cons.mpr ⟨fun q member => ?_, ih _⟩
      rcases mem_walk member with ⟨_, k, _, rfl⟩
      rw [Direction.moreUrgent_iff]
      cases plan.direction with
      | smallerIsUrgent | biggerIsUrgent =>
        simp only [Direction.up]
        omega
    case isFalse => exact ih _

theorem slotsAboveTransport_pairwise (plan : PriorityPlan) :
    plan.slotsAboveTransport.Pairwise fun p q => plan.direction.MoreUrgent q p := by
  rw [slotsAboveTransport]
  split
  case h_1 => exact List.Pairwise.nil
  case h_2 =>
    split
    · exact plan.walk_pairwise _ _
    · exact plan.walk_pairwise _ _

end PriorityPlan

theorem transportPriority_bounds (numPreempt band : Int) (some_ : 1 ≤ numPreempt) :
    0 ≤ transportPriority numPreempt band ∧ transportPriority numPreempt band < numPreempt := by
  have posix : 0 ≤ bandToPosix band numPreempt ∧ bandToPosix band numPreempt ≤ numPreempt - 1 := by
    simp only [bandToPosix]
    rw [if_neg (by omega)]
    omega
  simp only [transportPriority, posixRrToKthread]
  omega

theorem sorted_ends {ks : List Int} {lo hi : Int} (sorted : ks.Pairwise (· ≤ ·))
    (first : ks.head? = some lo) (last : ks.getLast? = some hi) :
    (lo ∈ ks ∧ hi ∈ ks) ∧ ∀ k ∈ ks, lo ≤ k ∧ k ≤ hi := by
  rcases List.head?_eq_some_iff.mp first with ⟨rest, headed⟩
  rcases List.getLast?_eq_some_iff.mp last with ⟨init, ended⟩
  refine ⟨⟨List.mem_of_mem_head? first, List.mem_of_getLast? last⟩, ?_⟩
  intro k member
  constructor
  · rw [headed] at sorted member
    rcases List.mem_cons.mp member with rfl | later
    · exact le_refl _
    · exact (List.pairwise_cons.mp sorted).1 k later
  · rw [ended] at sorted member
    rcases List.mem_append.mp member with before | here
    · exact (List.pairwise_append.mp sorted).2.2 k before hi List.mem_cons_self
    · exact le_of_eq (List.mem_singleton.mp here)

theorem zephyrPlan_cases (numPreempt numCoop : Int) (bands : List Int) :
    (bands = [] ∧ zephyrPlan numPreempt numCoop bands =
      ⟨.smallerIsUrgent, ⟨wrapI64 (-numCoop), numPreempt - 1⟩, [], ⟨0, numPreempt - 1⟩⟩) ∨
    ∃ lo hi, zephyrPlan numPreempt numCoop bands =
        ⟨.smallerIsUrgent, ⟨wrapI64 (-numCoop), numPreempt - 1⟩, [("transport", ⟨lo, hi⟩)],
          ⟨hi + 1, numPreempt - 1⟩⟩ ∧
      (∃ band ∈ bands, transportPriority numPreempt band = lo) ∧
      ∀ band ∈ bands, lo ≤ transportPriority numPreempt band ∧
        transportPriority numPreempt band ≤ hi := by
  have same := List.mergeSort_perm (bands.map (transportPriority numPreempt))
    (fun a b => decide (a ≤ b))
  have sorted : (bands.map (transportPriority numPreempt)).mergeSort.Pairwise (· ≤ ·) := by
    have ordered := @List.pairwise_mergeSort _ (fun a b : Int => decide (a ≤ b))
      (by simp only [decide_eq_true_eq]; omega)
      (by simp only [Bool.or_eq_true, decide_eq_true_eq]; omega)
      (bands.map (transportPriority numPreempt))
    simpa only [decide_eq_true_eq] using ordered
  rw [zephyrPlan]
  split
  case h_1 lo hi first last =>
    have ends := sorted_ends sorted first last
    refine .inr ⟨lo, hi, rfl, List.mem_map.mp (same.mem_iff.mp ends.1.1), ?_⟩
    intro band member
    exact ends.2 _ (same.mem_iff.mpr (List.mem_map_of_mem member))
  case h_2 neither =>
    refine .inl ⟨?_, rfl⟩
    cases ks : (bands.map (transportPriority numPreempt)).mergeSort with
    | nil =>
      rw [ks] at same
      exact List.map_eq_nil_iff.mp same.nil_eq.symm
    | cons k rest =>
      rw [ks] at neither
      exact (neither k _ rfl List.getLast?_cons).elim

/-- What an application thread of a Zephyr image may be given. -/
structure AppPriority (plan : PriorityPlan) (numPreempt : Int) (bands : List Int) (p : Int) :
    Prop where
  inPool : plan.app.contains p = true
  free : plan.reservedBandOf p = none
  below : ∀ band ∈ bands, plan.direction.MoreUrgent (transportPriority numPreempt band) p

theorem appPriority_of_inPool {numPreempt numCoop : Int} {bands : List Int} {p : Int}
    (inPool : (zephyrPlan numPreempt numCoop bands).app.contains p = true) :
    AppPriority (zephyrPlan numPreempt numCoop bands) numPreempt bands p := by
  rcases zephyrPlan_cases numPreempt numCoop bands with ⟨none_, shape⟩ | ⟨lo, hi, shape, _, span⟩
  · subst none_
    rw [shape] at inPool ⊢
    exact ⟨inPool, rfl, by simp⟩
  · rw [shape] at inPool ⊢
    have room := (Band.contains_iff _ p).mp inPool
    refine ⟨inPool, ?_, ?_⟩
    · rw [PriorityPlan.reservedBandOf, List.find?_eq_none]
      intro band member
      cases List.mem_singleton.mp member
      rw [Band.contains_iff]
      simp only at room ⊢
      omega
    · intro band member
      have within := (span band member).2
      simp only [Direction.MoreUrgent] at room ⊢
      omega

/-- What a crossing thread of a Zephyr image may be given. -/
structure CrossingPriority (plan : PriorityPlan) (numPreempt : Int) (bands : List Int)
    (p : Int) : Prop where
  preemptible : 0 ≤ p ∧ p < numPreempt
  inRange : plan.range.contains p = true
  free : plan.reservedBandOf p = none
  above : ∀ band ∈ bands, plan.direction.MoreUrgent p (transportPriority numPreempt band)

theorem crossingPriority_of_slot {numPreempt numCoop : Int} {bands : List Int} {p : Int}
    (some_ : 1 ≤ numPreempt)
    (slot : p ∈ (zephyrPlan numPreempt numCoop bands).slotsAboveTransport) :
    CrossingPriority (zephyrPlan numPreempt numCoop bands) numPreempt bands p := by
  rcases zephyrPlan_cases numPreempt numCoop bands with
    ⟨none_, shape⟩ | ⟨lo, hi, shape, ⟨least, _, same⟩, span⟩
  · rw [shape] at slot
    cases slot
  · have bounds := transportPriority_bounds numPreempt least some_
    rw [shape] at slot ⊢
    change p ∈ PriorityPlan.walk _ (lo - max (wrapI64 (-numCoop)) 0).toNat (lo - 1) at slot
    rcases PriorityPlan.mem_walk slot with ⟨free, k, turn, place⟩
    simp only [Direction.up] at place
    refine ⟨by omega, ?_, free, ?_⟩
    · rw [Band.contains_iff]
      simp only
      omega
    · intro band member
      have within := (span band member).1
      simp only [Direction.MoreUrgent]
      omega

/-- A Zephyr plan gives the application nothing that is reserved or that beats the transport, the
more urgent priorities first; what it lists above the transport is preemptible and free, the
nearest first. -/
theorem zephyrPlan_sound (numPreempt numCoop : Int) (bands : List Int) (some_ : 1 ≤ numPreempt) :
    (∀ k p, (zephyrPlan numPreempt numCoop bands).nthAppPriority k = some p →
      AppPriority (zephyrPlan numPreempt numCoop bands) numPreempt bands p) ∧
    (∀ p, (zephyrPlan numPreempt numCoop bands).leastUrgentAppPriority = some p →
      AppPriority (zephyrPlan numPreempt numCoop bands) numPreempt bands p) ∧
    (∀ k l p q, k < l → (zephyrPlan numPreempt numCoop bands).nthAppPriority k = some p →
      (zephyrPlan numPreempt numCoop bands).nthAppPriority l = some q →
      (zephyrPlan numPreempt numCoop bands).direction.MoreUrgent p q) ∧
    (∀ k l, k ≤ l → (zephyrPlan numPreempt numCoop bands).nthAppPriority k = none →
      (zephyrPlan numPreempt numCoop bands).nthAppPriority l = none) ∧
    (∀ p ∈ (zephyrPlan numPreempt numCoop bands).slotsAboveTransport,
      CrossingPriority (zephyrPlan numPreempt numCoop bands) numPreempt bands p) ∧
    (zephyrPlan numPreempt numCoop bands).slotsAboveTransport.Pairwise fun p q =>
      (zephyrPlan numPreempt numCoop bands).direction.MoreUrgent q p := by
  refine ⟨?_, ?_, ?_, ?_, ?_, PriorityPlan.slotsAboveTransport_pairwise _⟩
  · intro k p given
    exact appPriority_of_inPool (PriorityPlan.contains_of_nthAppPriority given)
  · intro p given
    exact appPriority_of_inPool (PriorityPlan.contains_of_leastUrgentAppPriority given)
  · intro k l p q before first second
    exact PriorityPlan.nthAppPriority_moreUrgent before first second
  · intro k l later spent
    rw [PriorityPlan.nthAppPriority_none_iff] at spent ⊢
    exact le_trans spent later
  · intro p slot
    exact crossingPriority_of_slot some_ slot

/-- Zephyr's defaults, with the default transport band. -/
theorem zephyrPlan_sound_defaults :
    AppPriority (zephyrPlan 15 16 [200]) 15 [200] 5 ∧
      CrossingPriority (zephyrPlan 15 16 [200]) 15 [200] 3 := by
  have shape : zephyrPlan 15 16 [200] =
      ⟨.smallerIsUrgent, ⟨-16, 14⟩, [("transport", ⟨4, 4⟩)], ⟨5, 14⟩⟩ := by
    rw [zephyrPlan, List.map_singleton, List.mergeSort_singleton]
    rfl
  have sound := zephyrPlan_sound 15 16 [200] (by decide)
  refine ⟨sound.1 0 5 ?_, sound.2.2.2.2.1 3 ?_⟩
  · rw [shape]
    rfl
  · rw [shape]
    decide

end NanoRos
