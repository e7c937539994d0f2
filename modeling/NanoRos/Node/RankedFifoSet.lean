import Mathlib.Data.Prod.Lex
import NanoRos.Lib.BitScan
import NanoRos.Lib.WindowQueue
import NanoRos.Node.EdfReadySet

/-! The ready set of the callbacks without deadlines: one bitmap of indices a dispatch level, and a
word that says which levels have any. -/

namespace NanoRos

inductive Priority where
  | critical
  | normal
  | bestEffort
  deriving DecidableEq

def dispatchLevels : Nat := 32

def maxContractRank : UInt8 := UInt8.ofNat (dispatchLevels - 3)

def Priority.dispatchLevel : Priority → UInt8 → UInt8
  | .critical, _ => 0
  | .normal, rank => 1 + if maxContractRank < rank then maxContractRank else rank
  | .bestEffort, _ => UInt8.ofNat (dispatchLevels - 1)

/-- The dispatch levels the bucket spans, `lo..hi`. -/
def Priority.levelRange (priority : Priority) : UInt8 × UInt8 :=
  (priority.dispatchLevel 0, priority.dispatchLevel 255 + 1)

theorem Priority.mem_levelRange_iff (priority other : Priority) (rank : UInt8) :
    (priority.levelRange.1 ≤ other.dispatchLevel rank ∧
      other.dispatchLevel rank < priority.levelRange.2) ↔ priority = other := by
  have level : (Priority.normal.dispatchLevel rank).toNat = 1 + min rank.toNat 29 := by
    have bound := rank.toNat_lt
    simp only [dispatchLevel, maxContractRank, dispatchLevels, UInt8.lt_iff_toNat_lt]
    split
    case isTrue large =>
      have large' : 29 < rank.toNat := large
      rw [Nat.min_eq_right large'.le]
      rfl
    case isFalse small =>
      have small' : rank.toNat ≤ 29 := Nat.not_lt.mp small
      rw [Nat.min_eq_left small', UInt8.toNat_add]
      change (1 + rank.toNat) % 256 = 1 + rank.toNat
      omega
  cases other with
  | critical =>
    change _ ≤ (0 : UInt8) ∧ (0 : UInt8) < _ ↔ _
    cases priority <;> decide
  | bestEffort =>
    change _ ≤ (31 : UInt8) ∧ (31 : UInt8) < _ ↔ _
    cases priority <;> decide
  | normal =>
    rw [UInt8.le_iff_toNat_le, UInt8.lt_iff_toNat_lt, level]
    cases priority with
    | critical =>
      change 0 ≤ _ ∧ _ < 1 ↔ _
      simp
    | normal =>
      change 1 ≤ _ ∧ _ < 31 ↔ _
      simp
      omega
    | bestEffort =>
      change 31 ≤ _ ∧ _ < 32 ↔ _
      simp
      omega

structure FifoReadySet (N : Nat) where
  bits : Mask 64

namespace FifoReadySet

variable {N : Nat}

def new : FifoReadySet N := ⟨0⟩

def bitsEmpty (s : FifoReadySet N) : Bool := s.bits = 0

def insert (s : FifoReadySet N) (job : ActiveJob) : Except Overflow Unit × FifoReadySet N :=
  let idx := job.descIdx.toNat
  if N ≤ idx then (.error ⟨⟩, s) else (.ok (), ⟨s.bits.insert idx⟩)

def popNext (s : FifoReadySet N) : Option ActiveJob × FifoReadySet N :=
  if s.bits = 0 then (none, s)
  else
    let idx := UInt8.ofNat s.bits.lowest
    (some ⟨idx.toUInt32, idx⟩, ⟨s.bits.erase idx.toNat⟩)

/-- The job that a pop makes of an index. -/
def jobOf (idx : Nat) : ActiveJob := ⟨(UInt8.ofNat idx).toUInt32, UInt8.ofNat idx⟩

theorem popNext_of_some {s : FifoReadySet N} (some_ : s.bits ≠ 0) :
    s.popNext = (some (jobOf s.bits.lowest), ⟨s.bits.erase s.bits.lowest⟩) := by
  have small : s.bits.lowest < 256 := (Mask.has_lt (Mask.has_lowest some_)).trans (by decide)
  rw [popNext, if_neg some_]
  dsimp only
  rw [UInt8.toNat_ofNat_of_lt' small]
  rfl

end FifoReadySet

structure RankedFifoSet (N : Nat) where
  levels : Nat → FifoReadySet N
  present : Mask 32

namespace RankedFifoSet

variable {N : Nat}

def new : RankedFifoSet N := ⟨fun _ => .new, 0⟩

def insertAt (s : RankedFifoSet N) (level : UInt8) (job : ActiveJob) :
    Except Overflow Unit × RankedFifoSet N :=
  let l := level.toNat
  if dispatchLevels ≤ l then (.error ⟨⟩, s)
  else
    let inserted := (s.levels l).insert job
    let s : RankedFifoSet N := { s with levels := Function.update s.levels l inserted.2 }
    match inserted.1 with
    | .error e => (.error e, s)
    | .ok _ => (.ok (), { s with present := s.present.insert l })

/-- The levels in `lo..hi` that have jobs. -/
def window (s : RankedFifoSet N) (lo hi : UInt8) : Mask 32 :=
  let belowHi := if 32 ≤ hi.toNat then BitVec.allOnes 32 else (1#32 <<< hi.toNat) - 1#32
  let fromLo := if 32 ≤ lo.toNat then 0#32 else BitVec.allOnes 32 <<< lo.toNat
  s.present &&& belowHi &&& fromLo

def popIn (s : RankedFifoSet N) (lo hi : UInt8) : Option ActiveJob × RankedFifoSet N :=
  let window := s.window lo hi
  if window = 0 then (none, s)
  else
    let l := window.lowest
    let popped := (s.levels l).popNext
    (popped.1, {
      levels := Function.update s.levels l popped.2
      present := if popped.2.bitsEmpty then s.present.erase l else s.present })

/-! ### The levels and their presence word -/

/-- A level is marked exactly if it has jobs; every job has a level and a place in its bitmap. -/
def Marked (s : RankedFifoSet N) : Prop :=
  ∀ l, l < 32 → (s.present.has l = true ↔ (s.levels l).bits ≠ 0)

theorem marked_new : (new : RankedFifoSet N).Marked := by
  intro l _
  simp [new, FifoReadySet.new]

variable {s : RankedFifoSet N} {lo hi : UInt8}

theorem has_window (l : Nat) : (s.window lo hi).has l = true ↔
      l < 32 ∧ s.present.has l = true ∧ lo.toNat ≤ l ∧ l < hi.toNat := by
  have within (present : s.present.has l = true) : l < 32 := Mask.has_lt present
  have above : Mask.has (if 32 ≤ lo.toNat then 0#32 else BitVec.allOnes 32 <<< lo.toNat) l =
      (decide (l < 32) && decide (lo.toNat ≤ l)) := by
    split
    case isTrue high =>
      rw [Mask.has_zero]
      symm
      simp only [Bool.and_eq_false_iff, decide_eq_false_iff_not]
      omega
    case isFalse => exact Mask.has_ones_from _ _
  have below : (s.present.has l &&
      Mask.has (if 32 ≤ hi.toNat then BitVec.allOnes 32 else (1#32 <<< hi.toNat) - 1#32) l) =
      (s.present.has l && decide (l < hi.toNat)) := by
    split
    case isTrue high =>
      cases there : s.present.has l with
      | false => rfl
      | true =>
        have inside := within there
        rw [Mask.has, BitVec.getLsbD_allOnes, decide_eq_true inside,
          decide_eq_true (inside.trans_le high)]
    case isFalse low => rw [Mask.has_ones_below (Nat.not_le.mp low)]
  rw [window, Mask.has_and, Mask.has_and, above, below]
  simp only [Bool.and_eq_true, decide_eq_true_eq]
  tauto

theorem window_eq_zero_iff : s.window lo hi = 0 ↔
    ∀ l, l < 32 → s.present.has l = true → ¬ (lo.toNat ≤ l ∧ l < hi.toNat) := by
  constructor
  · intro empty l inside present between
    have there := (has_window l).mpr ⟨inside, present, between.1, between.2⟩
    rw [empty, BitVec.ofNat_eq_ofNat, Mask.has_zero] at there
    cases there
  · intro none
    apply Mask.ext
    intro l inside
    rw [BitVec.ofNat_eq_ofNat, Mask.has_zero, Bool.eq_false_iff]
    intro there
    rcases (has_window l).mp there with ⟨_, present, between⟩
    exact none l inside present between

/-- What a pop does when a level in the window has jobs: the lowest index of the lowest level goes. -/
theorem popIn_of_some (marked : s.Marked) (some_ : s.window lo hi ≠ 0) : (s.popIn lo hi).1 =
        some (FifoReadySet.jobOf (s.levels (s.window lo hi).lowest).bits.lowest) ∧
      (s.popIn lo hi).2.levels = Function.update s.levels (s.window lo hi).lowest
        ⟨(s.levels (s.window lo hi).lowest).bits.erase
          (s.levels (s.window lo hi).lowest).bits.lowest⟩ ∧
      (s.popIn lo hi).2.Marked := by
  rcases (has_window _).mp (Mask.has_lowest some_) with ⟨inside, present, _⟩
  rw [popIn]
  generalize (s.window lo hi).lowest = l at *
  have jobs := (marked l inside).mp present
  rw [if_neg some_]
  dsimp only
  rw [FifoReadySet.popNext_of_some jobs]
  refine ⟨rfl, rfl, fun other within => ?_⟩
  dsimp only
  by_cases same : other = l
  · subst same
    rw [Function.update_self, FifoReadySet.bitsEmpty]
    by_cases empty : (s.levels other).bits.erase (s.levels other).bits.lowest = 0
    · simp [empty]
    · rw [decide_eq_false empty]
      exact iff_of_true present empty
  · rw [Function.update_of_ne same, ← marked other within]
    split
    · simp [Ne.symm same]
    · rfl

/-! ### Refusals and inserts -/

variable {level : UInt8} {job : ActiveJob}

theorem insertAt_refused (refused : dispatchLevels ≤ level.toNat ∨ N ≤ job.descIdx.toNat) :
    s.insertAt level job = (.error ⟨⟩, s) := by
  rw [insertAt]
  by_cases high : dispatchLevels ≤ level.toNat
  · rw [if_pos high]
  · rw [if_neg high, FifoReadySet.insert, if_pos (refused.resolve_left high)]
    dsimp only
    rw [Function.update_eq_self]

theorem insertAt_accepted (low : level.toNat < dispatchLevels) (idx : job.descIdx.toNat < N) :
    s.insertAt level job = (.ok (), {
      levels := Function.update s.levels level.toNat
        ⟨(s.levels level.toNat).bits.insert job.descIdx.toNat⟩
      present := s.present.insert level.toNat }) := by
  rw [insertAt, if_neg (Nat.not_le.mpr low), FifoReadySet.insert, if_neg (Nat.not_le.mpr idx)]

/-! ### The queue it stands for -/

/-- The levels `lo..hi`. -/
def Within (lo hi : UInt8) (entry : ℕ ×ₗ ℕ) : Prop :=
  lo.toNat ≤ (ofLex entry).1 ∧ (ofLex entry).1 < hi.toNat

instance (lo hi : UInt8) : DecidablePred (Within lo hi) := fun _ => inferInstanceAs (Decidable (_ ∧ _))

/-- The pairs of a level and an index that the bitmaps hold. -/
def Holds (s : RankedFifoSet N) (queued : Finset (ℕ ×ₗ ℕ)) : Prop :=
  ∀ l i, toLex (l, i) ∈ queued ↔ l < 32 ∧ (s.levels l).bits.has i = true

variable {queued : Finset (ℕ ×ₗ ℕ)}

theorem ne_zero_of_has {mask : Mask 64} {i : Nat} (there : mask.has i = true) : mask ≠ 0 := by
  rintro rfl
  rw [BitVec.ofNat_eq_ofNat, Mask.has_zero] at there
  cases there

theorem none_within (marked : s.Marked) (holds : s.Holds queued) (empty : s.window lo hi = 0) :
    ∀ e ∈ queued, ¬ Within lo hi e := by
  intro e member between
  rcases (holds (ofLex e).1 (ofLex e).2).mp member with ⟨inside, there⟩
  exact window_eq_zero_iff.mp empty _ inside ((marked _ inside).mpr (ne_zero_of_has there)) between

theorem isLeast_lowest (marked : s.Marked) (holds : s.Holds queued) (some_ : s.window lo hi ≠ 0) :
    IsLeast {e | e ∈ queued ∧ Within lo hi e} (toLex ((s.window lo hi).lowest,
      (s.levels (s.window lo hi).lowest).bits.lowest)) := by
  rcases (has_window _).mp (Mask.has_lowest some_) with ⟨inside, present, between⟩
  constructor
  · have jobs := (marked _ inside).mp present
    exact ⟨(holds _ _).mpr ⟨inside, Mask.has_lowest jobs⟩, between⟩
  · rintro e ⟨member, between'⟩
    rcases (holds (ofLex e).1 (ofLex e).2).mp member with ⟨inside', there⟩
    have shown := (has_window (ofLex e).1).mpr
      ⟨inside', (marked _ inside').mpr (ne_zero_of_has there), between'⟩
    have up : (s.window lo hi).lowest ≤ (ofLex e).1 := by
      by_contra below
      rw [Mask.has_below_lowest (Nat.not_le.mp below)] at shown
      cases shown
    rw [← toLex_ofLex e, Prod.Lex.toLex_le_toLex]
    rcases Nat.lt_or_eq_of_le up with before | same
    · exact Or.inl before
    · refine Or.inr ⟨same, ?_⟩
      by_contra below
      dsimp only at below
      rw [same] at below
      rw [Mask.has_below_lowest (Nat.not_le.mp below)] at there
      cases there

theorem popIn_least (marked : s.Marked) (holds : s.Holds queued) (lo hi : UInt8) :
    (s.popIn lo hi).1 =
        (WindowQueue.least queued (Within lo hi)).map (fun e => FifoReadySet.jobOf (ofLex e).2) ∧
      (s.popIn lo hi).2.Marked ∧
      (s.popIn lo hi).2.Holds (((WindowQueue.least queued (Within lo hi)).map queued.erase).getD
        queued) := by
  by_cases empty : s.window lo hi = 0
  · have nothing := WindowQueue.least_eq_none_iff.mpr (none_within marked holds empty)
    rw [nothing, popIn, if_pos empty]
    exact ⟨rfl, marked, holds⟩
  · have found := WindowQueue.least_eq_some_iff.mpr (isLeast_lowest marked holds empty)
    rcases popIn_of_some marked empty with ⟨job, levels, marked'⟩
    rw [found]
    refine ⟨job, marked', fun l i => ?_⟩
    simp only [Option.map_some, Option.getD_some]
    rw [levels, Finset.mem_erase, holds, ne_eq, toLex_inj, Prod.mk.injEq]
    by_cases same : l = (s.window lo hi).lowest
    · rw [same, Function.update_self, Mask.has_erase, Bool.and_eq_true, Bool.not_eq_true',
        decide_eq_false_iff_not]
      constructor
      · rintro ⟨apart, inside, there⟩
        exact ⟨inside, there, fun equal => apart ⟨rfl, equal.symm⟩⟩
      · rintro ⟨inside, there, differ⟩
        exact ⟨fun both => differ both.2.symm, inside, there⟩
    · rw [Function.update_of_ne same]
      simp [same]

/-- The set, and the pairs that were inserted and not yet taken. -/
structure RankedLog (N : Nat) where
  set : RankedFifoSet N
  queued : Finset (ℕ ×ₗ ℕ)

inductive RankedOp where
  | insertAt (level : UInt8) (job : ActiveJob)
  | popIn (lo hi : UInt8)

namespace RankedLog

def start : RankedLog N := ⟨new, ∅⟩

/-- An insert that is accepted queues its pair; a pop takes the least one of its window. -/
def step (log : RankedLog N) : RankedOp → Option (RankedLog N)
  | .insertAt level job =>
    let result := log.set.insertAt level job
    some {
      set := result.2
      queued :=
        if result.1 = .ok () then insert (toLex (level.toNat, job.descIdx.toNat)) log.queued
        else log.queued }
  | .popIn lo hi =>
    let result := log.set.popIn lo hi
    some {
      set := result.2
      queued := ((WindowQueue.least log.queued (Within lo hi)).map log.queued.erase).getD
        log.queued }

structure Sound (log : RankedLog N) : Prop where
  marked : log.set.Marked
  holds : log.set.Holds log.queued

theorem sound_start : (start : RankedLog N).Sound := by
  refine ⟨marked_new, fun l i => ?_⟩
  simp [start, new, FifoReadySet.new]

theorem sound_insertAt {log next : RankedLog N} (small : N ≤ 64) (sound : log.Sound)
    {level : UInt8} {job : ActiveJob} (stepped : step log (.insertAt level job) = some next) :
    next.Sound := by
  cases stepped
  by_cases refused : dispatchLevels ≤ level.toNat ∨ N ≤ job.descIdx.toNat
  · rw [insertAt_refused refused]
    exact ⟨sound.marked, sound.holds⟩
  · rw [not_or, Nat.not_le, Nat.not_le] at refused
    rw [insertAt_accepted refused.1 refused.2]
    have low : level.toNat < 32 := refused.1
    have idx : job.descIdx.toNat < 64 := refused.2.trans_le small
    constructor
    · intro l inside
      dsimp only
      by_cases same : l = level.toNat
      · rw [same, Function.update_self]
        have there : ((log.set.levels level.toNat).bits.insert job.descIdx.toNat).has
            job.descIdx.toNat = true := by simp [idx]
        exact iff_of_true (by simp [low]) (ne_zero_of_has there)
      · rw [Function.update_of_ne same, ← sound.marked l inside]
        simp [Ne.symm same]
    · intro l i
      dsimp only
      rw [if_pos rfl, Finset.mem_insert, sound.holds, toLex_inj, Prod.mk.injEq]
      by_cases same : l = level.toNat
      · rw [same, Function.update_self, Mask.has_insert]
        simp [low, idx]
        tauto
      · rw [Function.update_of_ne same]
        simp [same]

theorem sound_step (small : N ≤ 64) (log : RankedLog N) (op : RankedOp) (next : RankedLog N)
    (sound : log.Sound) (stepped : step log op = some next) : next.Sound := by
  cases op with
  | insertAt level job => exact sound_insertAt small sound stepped
  | popIn lo hi =>
    cases stepped
    rcases popIn_least sound.marked sound.holds lo hi with ⟨_, marked, holds⟩
    exact ⟨marked, holds⟩

/-- An exact queue of two levels; a job comes out as its index, whatever key it went in with. -/
structure Exact (log : RankedLog N) : Prop where
  marked : log.set.Marked
  holds : log.set.Holds log.queued
  none_iff : ∀ lo hi, (log.set.popIn lo hi).1 = none ↔ ∀ e ∈ log.queued, ¬ Within lo hi e
  unchanged : ∀ lo hi, (log.set.popIn lo hi).1 = none → (log.set.popIn lo hi).2 = log.set
  least : ∀ lo hi job, (log.set.popIn lo hi).1 = some job → ∃ l i,
    IsLeast {e | e ∈ log.queued ∧ Within lo hi e} (toLex (l, i)) ∧
      job.descIdx.toNat = i ∧ job.sortKey = job.descIdx.toUInt32 ∧
      (log.set.popIn lo hi).2.Holds (log.queued.erase (toLex (l, i)))
  refused : ∀ level job, (log.set.insertAt level job).1 = .error ⟨⟩ ↔
    32 ≤ level.toNat ∨ N ≤ job.descIdx.toNat
  refusal : ∀ level job, (log.set.insertAt level job).1 = .error ⟨⟩ →
    (log.set.insertAt level job).2 = log.set

theorem exact_of_sound {log : RankedLog N} (sound : log.Sound) : log.Exact where
  marked := sound.marked
  holds := sound.holds
  none_iff lo hi := by
    rw [(popIn_least sound.marked sound.holds lo hi).1, Option.map_eq_none_iff,
      WindowQueue.least_eq_none_iff]
  unchanged lo hi none := by
    by_cases empty : log.set.window lo hi = 0
    · rw [popIn, if_pos empty]
    · rw [(popIn_of_some sound.marked empty).1] at none
      cases none
  least lo hi job found := by
    rcases popIn_least sound.marked sound.holds lo hi with ⟨result, _, holds⟩
    rw [result] at found
    rcases Option.map_eq_some_iff.mp found with ⟨e, least, rfl⟩
    rw [least] at holds
    have isLeast := WindowQueue.least_eq_some_iff.mp least
    have there := ((sound.holds (ofLex e).1 (ofLex e).2).mp isLeast.1.1).2
    have small : (ofLex e).2 < 256 := (Mask.has_lt there).trans (by decide)
    exact ⟨(ofLex e).1, (ofLex e).2, isLeast, UInt8.toNat_ofNat_of_lt' small, rfl, holds⟩
  refused level job := by
    by_cases refused : dispatchLevels ≤ level.toNat ∨ N ≤ job.descIdx.toNat
    · rw [insertAt_refused refused]
      exact iff_of_true rfl refused
    · have accepted := not_or.mp refused
      rw [insertAt_accepted (Nat.not_le.mp accepted.1) (Nat.not_le.mp accepted.2)]
      exact iff_of_false nofun refused
  refusal level job answer := by
    by_cases refused : dispatchLevels ≤ level.toNat ∨ N ≤ job.descIdx.toNat
    · rw [insertAt_refused refused]
    · have accepted := not_or.mp refused
      rw [insertAt_accepted (Nat.not_le.mp accepted.1) (Nat.not_le.mp accepted.2)] at answer
      cases answer

/-- From the empty set on, whatever is inserted and popped. -/
theorem exact_of_run (small : N ≤ 64) (ops : List RankedOp) (last : RankedLog N)
    (reached : run step start ops = some last) : last.Exact :=
  exact_of_sound (run_invariant (sound_step small) start last ops sound_start reached)

/-- Two levels, of which the lower one has been served. -/
theorem exact_of_run_two : ∃ last, run step (start : RankedLog 64)
    [.insertAt 3 ⟨0, 0⟩, .insertAt 1 ⟨5, 5⟩, .popIn 0 255] = some last ∧
      (last.set.popIn 2 32).1 = some ⟨0, 0⟩ ∧ last.Exact := by
  refine ⟨_, rfl, by decide +kernel, ?_⟩
  exact exact_of_run (by decide) [.insertAt 3 ⟨0, 0⟩, .insertAt 1 ⟨5, 5⟩, .popIn 0 255] _ rfl

/-- The only job there is goes in with one key and comes out with another. -/
theorem queued_job_replaced : ∃ last,
    run step (start : RankedLog 64) [.insertAt 0 ⟨7, 3⟩] = some last ∧
      (last.set.popIn 0 32).1 = some ⟨3, 3⟩ ∧ (last.set.popIn 0 32).1 ≠ some ⟨7, 3⟩ :=
  ⟨_, rfl, by decide +kernel, by decide +kernel⟩

end RankedLog

end RankedFifoSet

end NanoRos
