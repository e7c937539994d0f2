import Mathlib.Algebra.Order.BigOperators.Group.Finset
import Mathlib.Algebra.Order.Floor.Div
import Mathlib.Data.Finset.Option
import Mathlib.Data.Nat.Count
import Mathlib.Tactic

/-! Preemption-threshold scheduling of recurring jobs on one core, in integer time. -/

namespace NanoRos.ThresholdSched

variable {J I : Type} {cost period : J → ℕ}

/-- The instances of the jobs: when each is released, and for how many slots it runs. -/
structure Releases (J I : Type) (cost period : J → ℕ) where
  job : I → J
  release : I → ℕ
  work : I → ℕ
  bounded : ∀ x, work x ≤ cost (job x)
  apart : ∀ x y, job x = job y → x ≠ y →
    release x + period (job x) ≤ release y ∨ release y + period (job x) ≤ release x

variable [DecidableEq I]

/-- How many slots before `t` ran the instance. -/
def served (runs : ℕ → Option I) (x : I) (t : ℕ) : ℕ := Nat.count (fun u => runs u = some x) t

def Pending (a : Releases J I cost period) (runs : ℕ → Option I) (x : I) (t : ℕ) : Prop :=
  a.release x ≤ t ∧ served runs x t < a.work x

instance (a : Releases J I cost period) (runs : ℕ → Option I) (x : I) (t : ℕ) :
    Decidable (Pending a runs x t) := inferInstanceAs (Decidable (_ ∧ _))

/-- What each slot runs. The core is not idle while an instance is pending, a band preempts the less
urgent ones, what has started in a band runs before the rest of it, and what starts is of the most
urgent rank pending, first released first. -/
structure Schedule (a : Releases J I cost period) (rank : J → ℕ) (band : ℕ → ℕ) where
  runs : ℕ → Option I
  pending : ∀ t x, runs t = some x → Pending a runs x t
  busy : ∀ t y, Pending a runs y t → runs t ≠ none
  preempts : ∀ t x y, runs t = some x → Pending a runs y t →
    band (rank (a.job x)) ≤ band (rank (a.job y))
  keeps : ∀ t x y, runs t = some x → Pending a runs y t → 0 < served runs y t → y ≠ x →
    band (rank (a.job x)) ≠ band (rank (a.job y))
  starts : ∀ t x y, runs t = some x → served runs x t = 0 → Pending a runs y t →
    served runs y t = 0 → rank (a.job x) < rank (a.job y) ∨
      rank (a.job x) = rank (a.job y) ∧ a.release x ≤ a.release y

theorem served_succ (runs : ℕ → Option I) (x : I) (t : ℕ) :
    served runs x (t + 1) = served runs x t + if runs t = some x then 1 else 0 :=
  Nat.count_succ _ t

theorem served_mono (runs : ℕ → Option I) (x : I) : Monotone (served runs x) :=
  Nat.count_monotone _

theorem card_le_served {runs : ℕ → Option I} {x : I} {slots : Finset ℕ} {e : ℕ}
    (before : ∀ t ∈ slots, t < e) (own : ∀ t ∈ slots, runs t = some x) :
    slots.card ≤ served runs x e := by
  rw [served, Nat.count_eq_card_filter_range]
  apply Finset.card_le_card
  intro t member
  exact Finset.mem_filter.mpr ⟨Finset.mem_range.mpr (before t member), own t member⟩

theorem card_le_sum {runs : ℕ → Option I} {slots : Finset ℕ} {among : Finset I}
    (runners : ∀ t ∈ slots, ∃ z ∈ among, runs t = some z) :
    slots.card ≤ ∑ z ∈ among, (slots.filter fun t => runs t = some z).card := by
  calc
    slots.card ≤ (among.biUnion fun z => slots.filter fun t => runs t = some z).card := by
      apply Finset.card_le_card
      intro t member
      rcases runners t member with ⟨z, inside, here⟩
      exact Finset.mem_biUnion.mpr ⟨z, inside, Finset.mem_filter.mpr ⟨member, here⟩⟩
    _ ≤ _ := Finset.card_biUnion_le

theorem Releases.card_le {a : Releases J I cost period} {j : J} (positive : 0 < period j)
    {among : Finset I} {t₀ n : ℕ} (own : ∀ z ∈ among, a.job z = j)
    (within : ∀ z ∈ among, t₀ ≤ a.release z ∧ a.release z < t₀ + n) :
    among.card ≤ n ⌈/⌉ period j := by
  rw [← Finset.card_range (n ⌈/⌉ period j)]
  apply Finset.card_le_card_of_injOn fun z => (a.release z - t₀) / period j
  · intro z member
    have bounds := within z member
    have cover : n ≤ period j * (n ⌈/⌉ period j) := le_smul_ceilDiv positive
    rw [Finset.coe_range, Set.mem_Iio, Nat.div_lt_iff_lt_mul positive, Nat.mul_comm]
    omega
  · intro z member y member' same
    by_contra distinct
    have together := a.apart z y ((own z member).trans (own y member').symm) distinct
    rw [own z member] at together
    have above := (within z member).1
    have above' := (within y member').1
    dsimp only at same
    rcases together with first | second
    · have later : (a.release z - t₀ + period j) / period j ≤ (a.release y - t₀) / period j :=
        Nat.div_le_div_right (by omega)
      rw [Nat.add_div_right _ positive] at later
      omega
    · have later : (a.release y - t₀ + period j) / period j ≤ (a.release z - t₀) / period j :=
        Nat.div_le_div_right (by omega)
      rw [Nat.add_div_right _ positive] at later
      omega

namespace Schedule

variable {a : Releases J I cost period} {rank : J → ℕ} {band : ℕ → ℕ}

theorem served_le_work (sched : Schedule a rank band) (x : I) (t : ℕ) :
    served sched.runs x t ≤ a.work x := by
  induction t with
  | zero => exact Nat.zero_le _
  | succ t ih =>
    rw [served_succ]
    split
    next here => exact (sched.pending t x here).2
    next => exact ih

variable {j : J} {slots : Finset ℕ} {t₀ e t ρ : ℕ} {z x : I} {B : ℕ}

section

variable (sched : Schedule a rank band)

theorem card_le_demand (positive : 0 < period j) {n : ℕ}
    (own : ∀ t ∈ slots, ∃ z, sched.runs t = some z ∧ a.job z = j ∧ t₀ ≤ a.release z ∧
      a.release z < t₀ + n) :
    slots.card ≤ n ⌈/⌉ period j * cost j := by
  have runner : ∀ z ∈ Finset.eraseNone (slots.image sched.runs),
      a.job z = j ∧ t₀ ≤ a.release z ∧ a.release z < t₀ + n := by
    intro z member
    rcases Finset.mem_image.mp (Finset.mem_eraseNone.mp member) with ⟨t, inside, here⟩
    rcases own t inside with ⟨y, there, facts⟩
    cases here.symm.trans there
    exact facts
  calc
    slots.card ≤ ∑ z ∈ Finset.eraseNone (slots.image sched.runs),
        (slots.filter fun t => sched.runs t = some z).card := by
      apply card_le_sum
      intro t inside
      rcases own t inside with ⟨z, here, _⟩
      exact ⟨z, Finset.mem_eraseNone.mpr (Finset.mem_image.mpr ⟨t, inside, here⟩), here⟩
    _ ≤ ∑ z ∈ Finset.eraseNone (slots.image sched.runs), cost j := by
      apply Finset.sum_le_sum
      intro z member
      rw [← (runner z member).1]
      calc
        _ ≤ served sched.runs z (slots.sup id + 1) := by
          apply card_le_served
          · intro t inside
            exact Nat.lt_succ_of_le (Finset.le_sup (f := id) (Finset.mem_filter.mp inside).1)
          · intro t inside
            exact (Finset.mem_filter.mp inside).2
        _ ≤ a.work z := sched.served_le_work z _
        _ ≤ cost (a.job z) := a.bounded z
    _ = (Finset.eraseNone (slots.image sched.runs)).card * cost j := by
      rw [Finset.sum_const, smul_eq_mul]
    _ ≤ n ⌈/⌉ period j * cost j := by
      apply Nat.mul_le_mul_right
      exact Releases.card_le positive (fun z member => (runner z member).1)
        fun z member => (runner z member).2

theorem card_lt_demand (positive : 0 < period j) {n : ℕ} (before : ∀ t ∈ slots, t < e)
    (own : ∀ t ∈ slots, ∃ z, sched.runs t = some z ∧ a.job z = j ∧ t₀ ≤ a.release z ∧
      a.release z < t₀ + n) {y : I} (mine : a.job y = j) (from_ : t₀ ≤ a.release y)
    (until_ : a.release y < t₀ + n) (short : served sched.runs y e < a.work y) :
    slots.card < n ⌈/⌉ period j * cost j := by
  have runner : ∀ z ∈ insert y (Finset.eraseNone (slots.image sched.runs)),
      a.job z = j ∧ t₀ ≤ a.release z ∧ a.release z < t₀ + n := by
    intro z member
    rcases Finset.mem_insert.mp member with rfl | among
    · exact ⟨mine, from_, until_⟩
    · rcases Finset.mem_image.mp (Finset.mem_eraseNone.mp among) with ⟨t, inside, here⟩
      rcases own t inside with ⟨x, there, facts⟩
      cases here.symm.trans there
      exact facts
  have each : ∀ z, (slots.filter fun t => sched.runs t = some z).card ≤ served sched.runs z e := by
    intro z
    apply card_le_served
    · intro t inside
      exact before t (Finset.mem_filter.mp inside).1
    · intro t inside
      exact (Finset.mem_filter.mp inside).2
  calc
    slots.card ≤ ∑ z ∈ insert y (Finset.eraseNone (slots.image sched.runs)),
        (slots.filter fun t => sched.runs t = some z).card := by
      apply card_le_sum
      intro t inside
      rcases own t inside with ⟨z, here, _⟩
      refine ⟨z, Finset.mem_insert_of_mem ?_, here⟩
      exact Finset.mem_eraseNone.mpr (Finset.mem_image.mpr ⟨t, inside, here⟩)
    _ < ∑ z ∈ insert y (Finset.eraseNone (slots.image sched.runs)), cost j := by
      apply Finset.sum_lt_sum
      · intro z member
        rw [← (runner z member).1]
        exact ((each z).trans (sched.served_le_work z e)).trans (a.bounded z)
      · refine ⟨y, Finset.mem_insert_self y _, ?_⟩
        rw [← mine]
        exact lt_of_le_of_lt (each y) (lt_of_lt_of_le short (a.bounded y))
    _ = (insert y (Finset.eraseNone (slots.image sched.runs))).card * cost j := by
      rw [Finset.sum_const, smul_eq_mul]
    _ ≤ n ⌈/⌉ period j * cost j := by
      apply Nat.mul_le_mul_right
      exact Releases.card_le positive (fun z member => (runner z member).1)
        fun z member => (runner z member).2

theorem blocks_of_runs (mono : Monotone band) {y : I} (here : sched.runs t = some z)
    (waits : Pending a sched.runs y t) (urgent : rank (a.job y) ≤ ρ) (less : ρ < rank (a.job z)) :
    0 < served sched.runs z t ∧ band (rank (a.job z)) = band ρ := by
  have below := sched.preempts t z y here waits
  have above := mono urgent
  have beneath := mono less.le
  refine ⟨?_, le_antisymm (below.trans above) beneath⟩
  by_contra fresh
  have unstarted : served sched.runs z t = 0 := Nat.eq_zero_of_not_pos fresh
  rcases Nat.eq_zero_or_pos (served sched.runs y t) with waiting | started
  · rcases sched.starts t z y here unstarted waits waiting with ahead | ⟨same, _⟩
    · omega
    · omega
  · have apart : y ≠ z := by
      rintro rfl
      exact absurd urgent (Nat.not_le.mpr less)
    exact sched.keeps t z y here waits started apart
      (le_antisymm below (above.trans beneath))

end

/-- While something as urgent as `ρ` waits. -/
def Waits (sched : Schedule a rank band) (ρ t : ℕ) : Prop :=
  ∃ y, Pending a sched.runs y t ∧ rank (a.job y) ≤ ρ

section

variable (sched : Schedule a rank band)

theorem started_of_blocks (mono : Monotone band) (waits : ∀ u, t₀ ≤ u → u < e → sched.Waits ρ u)
    (less : ρ < rank (a.job z)) (inside : t < e) (from_ : t₀ ≤ t) (here : sched.runs t = some z) :
    0 < served sched.runs z t₀ := by
  by_contra fresh
  have unserved : ∀ u, t₀ ≤ u → u ≤ t → served sched.runs z u = 0 := by
    intro u later
    induction u, later using Nat.le_induction with
    | base =>
      intro _
      exact Nat.eq_zero_of_not_pos fresh
    | succ u later ih =>
      intro bound
      have before := ih (Nat.le_of_succ_le bound)
      rw [served_succ, before]
      split
      next runs =>
        rcases waits u later (by omega) with ⟨y, waiting, urgent⟩
        have started := (sched.blocks_of_runs mono runs waiting urgent less).1
        omega
      next => rfl
  rcases waits t from_ inside with ⟨y, waiting, urgent⟩
  have started := (sched.blocks_of_runs mono here waiting urgent less).1
  have unstarted := unserved t from_ le_rfl
  omega

theorem release_lt_of_served (started : 0 < served sched.runs z t) :
    a.release z < t := by
  induction t with
  | zero => exact absurd started (lt_irrefl 0)
  | succ t ih =>
    rw [served_succ] at started
    split at started
    next here => exact Nat.lt_succ_of_le (sched.pending t z here).1
    next => exact (ih started).trans (Nat.lt_succ_self t)

theorem blocker_unique (mono : Monotone band) {u : ℕ}
    (waits : ∀ u, t₀ ≤ u → u < e → sched.Waits ρ u) (less : ρ < rank (a.job x))
    (less' : ρ < rank (a.job z)) (from_ : t₀ ≤ t) (order : t ≤ u) (inside : u < e)
    (here : sched.runs t = some x) (there : sched.runs u = some z) : x = z := by
  by_contra apart
  have started := sched.started_of_blocks mono waits less' inside (from_.trans order) there
  have released := sched.release_lt_of_served started
  have waiting : Pending a sched.runs z t := by
    refine ⟨released.le.trans from_, ?_⟩
    exact lt_of_le_of_lt (served_mono _ z order) (sched.pending u z there).2
  have bands : ∀ w v, t₀ ≤ v → v < e → ρ < rank (a.job w) → sched.runs v = some w →
      band (rank (a.job w)) = band ρ := by
    intro w v later bound lower runs
    rcases waits v later bound with ⟨y, pending, urgent⟩
    exact (sched.blocks_of_runs mono runs pending urgent lower).2
  have first := bands x t from_ (lt_of_le_of_lt order inside) less here
  have second := bands z u (from_.trans order) inside less' there
  have ongoing := lt_of_lt_of_le started (served_mono _ z from_)
  exact sched.keeps t x z here waiting ongoing (Ne.symm apart) (first.trans second.symm)

theorem card_blocked_le (mono : Monotone band) (waits : ∀ u, t₀ ≤ u → u < e → sched.Waits ρ u)
    (blocks : ∀ j, ρ < rank j → band (rank j) = band ρ → cost j ≤ B)
    (within : ∀ t ∈ slots, t₀ ≤ t ∧ t < e)
    (lower : ∀ t ∈ slots, ∃ z, sched.runs t = some z ∧ ρ < rank (a.job z)) : slots.card ≤ B := by
  rcases slots.eq_empty_or_nonempty with rfl | ⟨t, member⟩
  · exact Nat.zero_le B
  · rcases lower t member with ⟨z, here, less⟩
    rcases waits t (within t member).1 (within t member).2 with ⟨y, waiting, urgent⟩
    have same : ∀ u ∈ slots, sched.runs u = some z := by
      intro u other
      rcases lower u other with ⟨x, there, less'⟩
      rcases le_total t u with order | order
      · rw [there, sched.blocker_unique mono waits less less' (within t member).1 order
          (within u other).2 here there]
      · rw [there, ← sched.blocker_unique mono waits less' less (within u other).1 order
          (within t member).2 there here]
    calc
      slots.card ≤ served sched.runs z e := card_le_served (fun u other => (within u other).2) same
      _ ≤ a.work z := sched.served_le_work z e
      _ ≤ cost (a.job z) := a.bounded z
      _ ≤ B := blocks _ less (sched.blocks_of_runs mono here waiting urgent less).2

end

/-- Nothing as urgent as `ρ` that was released before `t` is left to run. -/
def Quiet (sched : Schedule a rank band) (ρ t : ℕ) : Prop :=
  ∀ y, rank (a.job y) ≤ ρ → a.release y < t → a.work y ≤ served sched.runs y t

section

variable (sched : Schedule a rank band)

theorem waits_of_not_quiet (busy : ¬ sched.Quiet ρ (t + 1)) :
    sched.Waits ρ t := by
  by_contra idle
  apply busy
  intro y urgent released
  by_contra short
  refine idle ⟨y, ⟨Nat.le_of_lt_succ released, ?_⟩, urgent⟩
  exact lt_of_le_of_lt (served_mono _ y (Nat.le_succ t)) (Nat.not_le.mp short)

theorem exists_last_quiet (ρ r : ℕ) :
    ∃ t₀ ≤ r, sched.Quiet ρ t₀ ∧ ∀ t, t₀ < t → t ≤ r → ¬ sched.Quiet ρ t := by
  induction r with
  | zero => exact ⟨0, le_rfl, nofun, fun t later bound => absurd later (Nat.not_lt.mpr bound)⟩
  | succ r ih =>
    by_cases quiet : sched.Quiet ρ (r + 1)
    · exact ⟨r + 1, le_rfl, quiet, fun t later bound => absurd later (Nat.not_lt.mpr bound)⟩
    · rcases ih with ⟨t₀, below, start, last⟩
      refine ⟨t₀, Nat.le_succ_of_le below, start, ?_⟩
      intro t later bound
      rcases Nat.lt_or_eq_of_le bound with before | rfl
      · exact last t later (Nat.le_of_lt_succ before)
      · exact quiet

theorem release_ge_of_quiet (quiet : sched.Quiet ρ t₀) (later : t₀ ≤ t)
    (here : sched.runs t = some z) (urgent : rank (a.job z) ≤ ρ) :
    t₀ ≤ a.release z := by
  by_contra earlier
  have done := quiet z urgent (Nat.not_le.mp earlier)
  have short := (sched.pending t z here).2
  exact absurd (done.trans (served_mono _ z later)) (Nat.not_le.mpr short)

end

variable [DecidableEq J]

/-- The slots of a stretch of time that run an instance of the job. -/
def slotsOf (sched : Schedule a rank band) (j : J) (t₀ e : ℕ) : Finset ℕ :=
  (Finset.Ico t₀ e).filter fun t => (sched.runs t).map a.job = some j

theorem mem_slotsOf {sched : Schedule a rank band} :
    t ∈ sched.slotsOf j t₀ e ↔ (t₀ ≤ t ∧ t < e) ∧ ∃ z, sched.runs t = some z ∧ a.job z = j := by
  rw [slotsOf, Finset.mem_filter, Finset.mem_Ico, Option.map_eq_some_iff]

variable [Fintype J]

variable (sched : Schedule a rank band)

/-- A stretch in which something as urgent as `ρ` waits is used up by one blocking instance and the
jobs that urgent. -/
theorem length_le (mono : Monotone band) (waits : ∀ u, t₀ ≤ u → u < e → sched.Waits ρ u)
    (blocks : ∀ j, ρ < rank j → band (rank j) = band ρ → cost j ≤ B) :
    e - t₀ ≤ B + ∑ j with rank j ≤ ρ, (sched.slotsOf j t₀ e).card := by
  have runner : ∀ t, t₀ ≤ t → t < e → ∃ z, sched.runs t = some z := by
    intro t later before
    rcases waits t later before with ⟨y, waiting, _⟩
    exact Option.ne_none_iff_exists'.mp (sched.busy t y waiting)
  let blocked := (Finset.Ico t₀ e).filter fun t =>
    ((sched.runs t).any fun z => ρ < rank (a.job z)) = true
  have lower : ∀ t ∈ blocked, ∃ z, sched.runs t = some z ∧ ρ < rank (a.job z) := by
    intro t member
    rcases (Option.any_eq_true _ _).mp (Finset.mem_filter.mp member).2 with ⟨z, here, less⟩
    exact ⟨z, here, of_decide_eq_true less⟩
  calc
    e - t₀ = (Finset.Ico t₀ e).card := (Nat.card_Ico t₀ e).symm
    _ ≤ (blocked ∪ (Finset.univ.filter fun j => rank j ≤ ρ).biUnion
        fun j => sched.slotsOf j t₀ e).card := by
      apply Finset.card_le_card
      intro t member
      rcases Finset.mem_Ico.mp member with ⟨later, before⟩
      rcases runner t later before with ⟨z, here⟩
      rcases Nat.lt_or_ge ρ (rank (a.job z)) with less | urgent
      · apply Finset.mem_union_left
        refine Finset.mem_filter.mpr ⟨member, ?_⟩
        rw [here, Option.any_some]
        exact decide_eq_true less
      · apply Finset.mem_union_right
        refine Finset.mem_biUnion.mpr ⟨a.job z, ?_, ?_⟩
        · exact Finset.mem_filter.mpr ⟨Finset.mem_univ _, urgent⟩
        · exact mem_slotsOf.mpr ⟨⟨later, before⟩, z, here, rfl⟩
    _ ≤ blocked.card + ((Finset.univ.filter fun j => rank j ≤ ρ).biUnion
        fun j => sched.slotsOf j t₀ e).card := Finset.card_union_le _ _
    _ ≤ B + ∑ j with rank j ≤ ρ, (sched.slotsOf j t₀ e).card := by
      apply Nat.add_le_add
      · apply sched.card_blocked_le mono waits blocks _ lower
        intro t member
        exact Finset.mem_Ico.mp (Finset.mem_filter.mp member).1
      · exact Finset.card_biUnion_le

theorem quiet_within (mono : Monotone band) {L : ℕ} (positive : ∀ j, 0 < period j)
    (quiet : sched.Quiet ρ t₀) (blocks : ∀ j, ρ < rank j → band (rank j) = band ρ → cost j ≤ B)
    (long : B + ∑ j with rank j ≤ ρ, L ⌈/⌉ period j * cost j ≤ L) (some_ : 0 < L) :
    ∃ t, t₀ < t ∧ t ≤ t₀ + L ∧ sched.Quiet ρ t := by
  by_contra none
  have busy : ∀ t, t₀ < t → t ≤ t₀ + L → ¬ sched.Quiet ρ t :=
    fun t later bound still => none ⟨t, later, bound, still⟩
  have waits : ∀ u, t₀ ≤ u → u < t₀ + L → sched.Waits ρ u :=
    fun u later bound =>
      sched.waits_of_not_quiet (busy (u + 1) (Nat.lt_succ_of_le later) bound)
  have demand : ∀ j, rank j ≤ ρ → ∀ t ∈ sched.slotsOf j t₀ (t₀ + L), ∃ z,
      sched.runs t = some z ∧ a.job z = j ∧ t₀ ≤ a.release z ∧ a.release z < t₀ + L := by
    intro j urgent t member
    rcases mem_slotsOf.mp member with ⟨⟨later, before⟩, z, here, rfl⟩
    refine ⟨z, here, rfl, sched.release_ge_of_quiet quiet later here urgent, ?_⟩
    exact lt_of_le_of_lt (sched.pending t z here).1 before
  have used := sched.length_le mono waits blocks
  rw [Nat.add_sub_cancel_left] at used
  have short := busy (t₀ + L) (by omega) le_rfl
  simp only [Quiet, not_forall, Nat.not_le] at short
  rcases short with ⟨y, urgent, released, short⟩
  have less : ∑ j with rank j ≤ ρ, (sched.slotsOf j t₀ (t₀ + L)).card <
      ∑ j with rank j ≤ ρ, L ⌈/⌉ period j * cost j := by
    apply Finset.sum_lt_sum
    · intro j member
      exact sched.card_le_demand (positive j) (demand j (Finset.mem_filter.mp member).2)
    · refine ⟨a.job y, Finset.mem_filter.mpr ⟨Finset.mem_univ _, urgent⟩, ?_⟩
      refine sched.card_lt_demand (positive _) ?_ (demand _ urgent) rfl ?_ released short
      · intro t member
        exact (mem_slotsOf.mp member).1.2
      · by_contra earlier
        have done := quiet y urgent (Nat.not_le.mp earlier)
        have more := served_mono sched.runs y (Nat.le_add_right t₀ L)
        omega
  omega

omit [DecidableEq J] [Fintype J] in
theorem later_unserved (same : a.job z = a.job x) (later : a.release x < a.release z)
    (short : served sched.runs x t < a.work x) :
    served sched.runs z t = 0 ∧ sched.runs t ≠ some z := by
  have refuses : ∀ u, served sched.runs x u < a.work x → served sched.runs z u = 0 →
      sched.runs u ≠ some z := by
    intro u short unserved here
    have waiting : Pending a sched.runs x u :=
      ⟨later.le.trans (sched.pending u z here).1, short⟩
    rcases Nat.eq_zero_or_pos (served sched.runs x u) with fresh | started
    · rcases sched.starts u z x here unserved waiting fresh with ahead | ⟨_, first⟩
      · rw [same] at ahead
        exact lt_irrefl _ ahead
      · exact absurd later (Nat.not_lt.mpr first)
    · have apart : x ≠ z := by
        rintro rfl
        exact lt_irrefl _ later
      exact sched.keeps u z x here waiting started apart (by rw [same])
  induction t with
  | zero => exact ⟨rfl, refuses 0 short rfl⟩
  | succ t ih =>
    have before : served sched.runs x t < a.work x :=
      lt_of_le_of_lt (served_mono _ x (Nat.le_succ t)) short
    have unserved : served sched.runs z (t + 1) = 0 := by
      rw [served_succ, (ih before).1, if_neg (ih before).2]
    exact ⟨unserved, refuses (t + 1) short unserved⟩

omit [Fintype J] in
theorem card_siblings_le (positive : 0 < period (a.job x)) (quiet : sched.Quiet (rank (a.job x)) t₀)
    (within : slots ⊆ sched.slotsOf (a.job x) t₀ e)
    (short : ∀ t ∈ slots, served sched.runs x t < a.work x)
    (others : ∀ t ∈ slots, sched.runs t ≠ some x) :
    slots.card ≤ (a.release x - t₀) / period (a.job x) * cost (a.job x) := by
  have few : (a.release x - t₀ + 1 - period (a.job x)) ⌈/⌉ period (a.job x) ≤
      (a.release x - t₀) / period (a.job x) := by
    rw [ceilDiv_le_iff_le_mul positive]
    have next := Nat.lt_mul_div_succ (a.release x - t₀) positive
    rw [Nat.mul_add, Nat.mul_one] at next
    omega
  refine le_trans ?_ (Nat.mul_le_mul_right _ few)
  apply sched.card_le_demand positive
  intro t member
  rcases mem_slotsOf.mp (within member) with ⟨⟨from_, before⟩, z, here, same⟩
  have released := sched.release_ge_of_quiet quiet from_ here (by rw [same])
  have apart : z ≠ x := fun equal => others t member (equal ▸ here)
  refine ⟨z, here, same, released, ?_⟩
  rcases a.apart z x same apart with first | second
  · rw [same] at first
    omega
  · rw [same] at second
    have later : a.release x < a.release z := by omega
    exact absurd here (sched.later_unserved same later (short t member)).2

omit [DecidableEq J] [Fintype J] in
theorem waits_until (busy : ∀ u, t₀ < u → u ≤ a.release x → ¬ sched.Quiet (rank (a.job x)) u)
    (from_ : t₀ ≤ t) (short : served sched.runs x t < a.work x)
    : sched.Waits (rank (a.job x)) t := by
  rcases Nat.lt_or_ge t (a.release x) with before | released
  · exact sched.waits_of_not_quiet (busy (t + 1) (Nat.lt_succ_of_le from_) before)
  · exact ⟨x, ⟨released, short⟩, le_rfl⟩

theorem sum_split (f : J → ℕ) (rank : J → ℕ) (i : J) :
    ∑ j with rank j ≤ rank i, f j = f i + ∑ j with j ≠ i ∧ rank j ≤ rank i, f j := by
  have member : i ∈ Finset.univ.filter fun j => rank j ≤ rank i :=
    Finset.mem_filter.mpr ⟨Finset.mem_univ i, le_rfl⟩
  rw [← Finset.add_sum_erase _ f member]
  congr 2
  ext j
  simp

/-- An instance starts within what blocks it, what its job has before it and what is released, as
urgent, up to its start. -/
theorem starts_by (mono : Monotone band) {S : ℕ} (positive : ∀ j, 0 < period j)
    (quiet : sched.Quiet (rank (a.job x)) t₀)
    (busy : ∀ u, t₀ < u → u ≤ a.release x → ¬ sched.Quiet (rank (a.job x)) u)
    (blocks : ∀ j, rank (a.job x) < rank j → band (rank j) = band (rank (a.job x)) → cost j ≤ B)
    (fits : B + (a.release x - t₀) / period (a.job x) * cost (a.job x) +
      ∑ j with j ≠ a.job x ∧ rank j ≤ rank (a.job x), (S / period j + 1) * cost j ≤ S)
    (some_ : 0 < a.work x) : 0 < served sched.runs x (t₀ + S + 1) := by
  by_contra unstarted
  have fresh : ∀ t, t ≤ t₀ + S + 1 → served sched.runs x t = 0 := by
    intro t bound
    have more := served_mono sched.runs x bound
    omega
  have short : ∀ t, t ≤ t₀ + S + 1 → served sched.runs x t < a.work x := by
    intro t bound
    rw [fresh t bound]
    exact some_
  have waits : ∀ u, t₀ ≤ u → u < t₀ + S + 1 → sched.Waits (rank (a.job x)) u :=
    fun u from_ before => sched.waits_until busy from_ (short u before.le)
  have used := sched.length_le mono waits blocks
  rw [sum_split] at used
  have siblings : (sched.slotsOf (a.job x) t₀ (t₀ + S + 1)).card ≤
      (a.release x - t₀) / period (a.job x) * cost (a.job x) := by
    apply sched.card_siblings_le (positive _) quiet (Finset.Subset.refl _)
    · intro t member
      exact short t (mem_slotsOf.mp member).1.2.le
    · intro t member here
      have next := fresh (t + 1) (mem_slotsOf.mp member).1.2
      rw [served_succ, if_pos here] at next
      omega
  have others : ∑ j with j ≠ a.job x ∧ rank j ≤ rank (a.job x),
      (sched.slotsOf j t₀ (t₀ + S + 1)).card ≤
        ∑ j with j ≠ a.job x ∧ rank j ≤ rank (a.job x), (S / period j + 1) * cost j := by
    apply Finset.sum_le_sum
    intro j member
    have urgent := (Finset.mem_filter.mp member).2.2
    have rounds : (S + 1) ⌈/⌉ period j = S / period j + 1 := by
      rw [Nat.ceilDiv_eq_add_pred_div, Nat.add_right_comm, Nat.add_sub_cancel,
        Nat.add_div_right S (positive j)]
    rw [← rounds]
    apply sched.card_le_demand (positive j)
    intro t inside
    rcases mem_slotsOf.mp inside with ⟨⟨from_, before⟩, z, here, rfl⟩
    refine ⟨z, here, rfl, sched.release_ge_of_quiet quiet from_ here urgent, ?_⟩
    exact lt_of_le_of_lt (sched.pending t z here).1 before
  omega

theorem done_by (mono : Monotone band) {S F : ℕ} (positive : ∀ j, 0 < period j)
    (quiet : sched.Quiet (rank (a.job x)) t₀)
    (busy : ∀ u, t₀ < u → u ≤ a.release x → ¬ sched.Quiet (rank (a.job x)) u)
    (blocks : ∀ j, rank (a.job x) < rank j → band (rank j) = band (rank (a.job x)) → cost j ≤ B)
    (fits : B + (a.release x - t₀) / period (a.job x) * cost (a.job x) +
      ∑ j with j ≠ a.job x ∧ rank j ≤ rank (a.job x), (S / period j + 1) * cost j ≤ S)
    (ends : S + cost (a.job x) + ∑ j with band (rank j) < band (rank (a.job x)),
      (F ⌈/⌉ period j - (S / period j + 1)) * cost j ≤ F) (some_ : 0 < a.work x) :
    a.work x ≤ served sched.runs x (t₀ + F) := by
  have started := sched.starts_by mono positive quiet busy blocks fits some_
  by_contra unfinished
  have bounded := a.bounded x
  have short : ∀ t, t ≤ t₀ + F → served sched.runs x t < a.work x := by
    intro t bound
    exact lt_of_le_of_lt (served_mono _ x bound) (Nat.not_le.mp unfinished)
  have waits : ∀ u, t₀ ≤ u → u < t₀ + F → sched.Waits (rank (a.job x)) u :=
    fun u from_ before => sched.waits_until busy from_ (short u before.le)
  have used := sched.length_le mono waits blocks
  rw [Nat.add_sub_cancel_left, sum_split] at used
  have own : (sched.slotsOf (a.job x) t₀ (t₀ + F)).card <
      cost (a.job x) + (a.release x - t₀) / period (a.job x) * cost (a.job x) := by
    rw [← Finset.card_filter_add_card_filter_not (s := sched.slotsOf (a.job x) t₀ (t₀ + F))
      fun t => sched.runs t = some x]
    apply Nat.add_lt_add_of_lt_of_le
    · calc
        _ ≤ served sched.runs x (t₀ + F) := by
          apply card_le_served
          · intro t member
            exact (mem_slotsOf.mp (Finset.mem_filter.mp member).1).1.2
          · intro t member
            exact (Finset.mem_filter.mp member).2
        _ < a.work x := short _ le_rfl
        _ ≤ cost (a.job x) := bounded
    · apply sched.card_siblings_le (positive _) quiet (Finset.filter_subset _ _)
      · intro t member
        exact short t (mem_slotsOf.mp (Finset.mem_filter.mp member).1).1.2.le
      · intro t member
        exact (Finset.mem_filter.mp member).2
  have others : ∑ j with j ≠ a.job x ∧ rank j ≤ rank (a.job x), (sched.slotsOf j t₀ (t₀ + F)).card ≤
        ∑ j with j ≠ a.job x ∧ rank j ≤ rank (a.job x), ((S / period j + 1) * cost j +
          if band (rank j) < band (rank (a.job x)) then
            (F ⌈/⌉ period j - (S / period j + 1)) * cost j else 0) := by
    apply Finset.sum_le_sum
    intro j member
    have urgent := (Finset.mem_filter.mp member).2.2
    by_cases above : band (rank j) < band (rank (a.job x))
    · rw [if_pos above, ← Nat.add_mul]
      refine le_trans ?_ (Nat.mul_le_mul_right _ le_add_tsub)
      apply sched.card_le_demand (positive j)
      intro t inside
      rcases mem_slotsOf.mp inside with ⟨⟨from_, before⟩, z, here, rfl⟩
      refine ⟨z, here, rfl, sched.release_ge_of_quiet quiet from_ here urgent, ?_⟩
      exact lt_of_le_of_lt (sched.pending t z here).1 before
    · rw [if_neg above, Nat.add_zero]
      have rounds : (S + 1) ⌈/⌉ period j = S / period j + 1 := by
        rw [Nat.ceilDiv_eq_add_pred_div, Nat.add_right_comm, Nat.add_sub_cancel,
          Nat.add_div_right S (positive j)]
      rw [← rounds]
      apply sched.card_le_demand (positive j)
      intro t inside
      rcases mem_slotsOf.mp inside with ⟨⟨from_, before⟩, z, here, rfl⟩
      refine ⟨z, here, rfl, sched.release_ge_of_quiet quiet from_ here urgent, ?_⟩
      -- A job of the band that runs after the instance started would preempt it.
      have early : t ≤ t₀ + S := by
        by_contra late
        have ongoing : 0 < served sched.runs x t :=
          lt_of_lt_of_le started (served_mono _ x (Nat.not_le.mp late))
        have waiting : Pending a sched.runs x t :=
          ⟨(sched.release_lt_of_served ongoing).le, short t before.le⟩
        have apart : x ≠ z := fun equal => (Finset.mem_filter.mp member).2.1 (equal ▸ rfl)
        have below := sched.preempts t z x here waiting
        exact sched.keeps t z x here waiting ongoing apart
          (le_antisymm below (Nat.not_lt.mp above))
      exact lt_of_le_of_lt (sched.pending t z here).1 (by omega)
  have preempters : ∑ j with j ≠ a.job x ∧ rank j ≤ rank (a.job x),
      (if band (rank j) < band (rank (a.job x)) then
        (F ⌈/⌉ period j - (S / period j + 1)) * cost j else 0) =
      ∑ j with band (rank j) < band (rank (a.job x)),
        (F ⌈/⌉ period j - (S / period j + 1)) * cost j := by
    rw [← Finset.sum_filter, Finset.filter_filter]
    congr 1
    ext j
    simp only [Finset.mem_filter, Finset.mem_univ, true_and, and_iff_right_iff_imp]
    intro above
    have ahead : rank j < rank (a.job x) := by
      by_contra behind
      exact absurd above (Nat.not_lt.mpr (mono (Nat.not_lt.mp behind)))
    refine ⟨?_, ahead.le⟩
    rintro rfl
    exact lt_irrefl _ ahead
  rw [Finset.sum_add_distrib, preempters] at others
  omega

/-- Every instance is done within the worst of its busy period's finish times, each less the
releases before it. -/
theorem completes (mono : Monotone band) (x : I) {L : ℕ} {S F : ℕ → ℕ}
    (positive : ∀ j, 0 < period j)
    (blocks : ∀ j, rank (a.job x) < rank j → band (rank j) = band (rank (a.job x)) → cost j ≤ B)
    (some_ : 0 < L) (long : B + ∑ j with rank j ≤ rank (a.job x), L ⌈/⌉ period j * cost j ≤ L)
    (fits : ∀ q < L ⌈/⌉ period (a.job x), B + q * cost (a.job x) +
      ∑ j with j ≠ a.job x ∧ rank j ≤ rank (a.job x), (S q / period j + 1) * cost j ≤ S q)
    (ends : ∀ q < L ⌈/⌉ period (a.job x), S q + cost (a.job x) +
      ∑ j with band (rank j) < band (rank (a.job x)),
        (F q ⌈/⌉ period j - (S q / period j + 1)) * cost j ≤ F q) :
    ∃ q < L ⌈/⌉ period (a.job x),
      a.work x ≤ served sched.runs x (a.release x + (F q - q * period (a.job x))) := by
  rcases sched.exists_last_quiet (rank (a.job x)) (a.release x) with ⟨t₀, below, quiet, busy⟩
  have near : a.release x < t₀ + L := by
    by_contra far
    rcases sched.quiet_within mono positive quiet blocks long some_ with ⟨t, later, bound, still⟩
    exact busy t later (bound.trans (Nat.not_lt.mp far)) still
  have whole : (a.release x - t₀) / period (a.job x) * period (a.job x) ≤ a.release x - t₀ :=
    Nat.div_mul_le_self _ _
  have among : (a.release x - t₀) / period (a.job x) < L ⌈/⌉ period (a.job x) := by
    by_contra beyond
    have cover : L ≤ period (a.job x) * (L ⌈/⌉ period (a.job x)) := le_smul_ceilDiv (positive _)
    have less := Nat.mul_le_mul_left (period (a.job x)) (Nat.not_lt.mp beyond)
    rw [Nat.mul_comm] at whole
    omega
  refine ⟨_, among, ?_⟩
  rcases Nat.eq_zero_or_pos (a.work x) with none | work
  · rw [none]
    exact Nat.zero_le _
  · calc
      a.work x ≤ served sched.runs x (t₀ + F ((a.release x - t₀) / period (a.job x))) :=
        sched.done_by mono positive quiet busy blocks (fits _ among) (ends _ among) work
      _ ≤ _ := by
        apply served_mono
        omega

end Schedule

end NanoRos.ThresholdSched
