import Mathlib
import NanoRos.Lib.Segments
import NanoRos.Lib.ThresholdSched

/-! The response-time analysis of preemption levels: the nested fixed points of `response_time`,
over exact naturals, bound every schedule that preempts between bands and not inside them. -/

namespace NanoRos.ResponseTime

open ThresholdSched

/-- An analysable callback. -/
structure Job where
  callback : String
  rank : Nat
  c : Nat
  t : Nat
  d : Nat

def maxJobs : Nat := 100000

/-- `loop` to a fixed point, given up when the next value is too large. -/
def climb (next : Nat → Nat) (tooLarge : Nat → Bool) : Nat → Nat → Option Nat
  | 0, _ => none
  | fuel + 1, x =>
    if next x = x then some x
    else if tooLarge (next x) then none
    else climb next tooLarge fuel (next x)

section Analysis

variable (jobs : List Job) (i : Fin jobs.length)

def blocking (bottom : Nat) : Nat :=
  ((jobs.filter fun j => jobs[i].rank < j.rank && j.rank ≤ bottom).map Job.c).max?.getD 0

def hp : List Job :=
  ((List.finRange jobs.length).filter fun k => k ≠ i && jobs[k].rank ≤ jobs[i].rank).map (jobs[·])

def preempt (top : Nat) : List Job := jobs.filter fun j => j.rank < top

def busyStep (bottom l : Nat) : Nat :=
  blocking jobs i bottom + jobs[i].c * (l ⌈/⌉ jobs[i].t) +
    ((hp jobs i).map fun j => j.c * (l ⌈/⌉ j.t)).sum

def busyPeriod (bottom : Nat) : Option Nat :=
  climb (busyStep jobs i bottom) (fun next => jobs[i].t * maxJobs < next)
    (jobs[i].t * maxJobs + 2)
    (blocking jobs i bottom + jobs[i].c + ((hp jobs i).map Job.c).sum)

def startStep (bottom q s : Nat) : Nat :=
  blocking jobs i bottom + q * jobs[i].c + ((hp jobs i).map fun j => (s / j.t + 1) * j.c).sum

def startTime (bottom q : Nat) : Option Nat :=
  climb (startStep jobs i bottom q) (fun next => q * jobs[i].t + jobs[i].d < next + jobs[i].c)
    (q * jobs[i].t + jobs[i].d + 2)
    (blocking jobs i bottom + q * jobs[i].c + ((hp jobs i).map Job.c).sum)

def finishStep (top s f : Nat) : Nat :=
  s + jobs[i].c + ((preempt jobs top).map fun j => (f ⌈/⌉ j.t - (s / j.t + 1)) * j.c).sum

def finishTime (top q s : Nat) : Option Nat :=
  climb (finishStep jobs i top s) (fun next => q * jobs[i].t + jobs[i].d < next)
    (q * jobs[i].t + jobs[i].d + 2) (s + jobs[i].c)

def jobResponse (top bottom worst q : Nat) : Option Nat := do
  let s ← startTime jobs i bottom q
  let f ← finishTime jobs i top q s
  if jobs[i].d < f - q * jobs[i].t then none else some (max worst (f - q * jobs[i].t))

/-- `overUtilised` is the comparison of the utilisation as a float. -/
def responseTime (overUtilised : Job → List Job → Bool) (top bottom : Nat) : Option Nat :=
  if overUtilised jobs[i] (hp jobs i) then none
  else do
    let l ← busyPeriod jobs i bottom
    (List.range (max (l ⌈/⌉ jobs[i].t) 1)).foldlM (jobResponse jobs i top bottom) 0

end Analysis

section Climbing

variable {next : Nat → Nat} {tooLarge : Nat → Bool}

theorem climb_fixed {fuel x y : Nat} (found : climb next tooLarge fuel x = some y) :
    next y = y := by
  induction fuel generalizing x with
  | zero => cases found
  | succ fuel ih =>
    rw [climb] at found
    split_ifs at found with fixed
    · cases found
      exact fixed
    · exact ih found

theorem climb_keeps {good : Nat → Prop} (keeps : ∀ x, good x → good (next x)) {fuel x y : Nat}
    (start : good x) (found : climb next tooLarge fuel x = some y) : good y := by
  induction fuel generalizing x with
  | zero => cases found
  | succ fuel ih =>
    rw [climb] at found
    split_ifs at found
    · cases found
      exact start
    · exact ih (keeps x start) found

theorem climb_ends (mono : Monotone next) (limit : Nat)
    (bounded : ∀ n, limit < n → tooLarge n = true) {fuel x : Nat} (climbs : x ≤ next x)
    (enough : limit < fuel + x) (some_ : 1 ≤ fuel) (more : Nat) :
    climb next tooLarge (fuel + more) x = climb next tooLarge fuel x := by
  induction fuel generalizing x with
  | zero => exact absurd some_ (Nat.not_succ_le_zero 0)
  | succ fuel ih =>
    rw [Nat.add_right_comm, climb, climb]
    by_cases fixed : next x = x
    · rw [if_pos fixed, if_pos fixed]
    · rw [if_neg fixed, if_neg fixed]
      by_cases large : tooLarge (next x) = true
      · rw [if_pos large, if_pos large]
      · rw [if_neg large, if_neg large]
        have below : next x ≤ limit := Nat.not_lt.mp fun above => large (bounded _ above)
        have above : x < next x := lt_of_le_of_ne climbs (Ne.symm fixed)
        exact ih (mono climbs) (by omega) (by omega)

theorem climb_least (mono : Monotone next) {fuel x y : Nat} (climbs : x ≤ next x)
    (found : climb next tooLarge fuel x = some y) : IsLeast {z | x ≤ z ∧ next z = z} y := by
  induction fuel generalizing x with
  | zero => cases found
  | succ fuel ih =>
    rw [climb] at found
    split_ifs at found with fixed
    · cases found
      exact ⟨⟨le_rfl, fixed⟩, fun z above => above.1⟩
    · have rest := ih (mono climbs) found
      refine ⟨⟨climbs.trans rest.1.1, rest.1.2⟩, fun z above => rest.2 ⟨?_, above.2⟩⟩
      calc
        next x ≤ next z := mono above.1
        _ = z := above.2

/-- More turns make no difference, and what the loop comes to is the least fixed point. -/
def Climbs (next : Nat → Nat) (tooLarge : Nat → Bool) (fuel x : Nat) (result : Option Nat) : Prop :=
  (∀ more, climb next tooLarge (fuel + more) x = result) ∧
    ∀ y, result = some y → IsLeast {z | x ≤ z ∧ next z = z} y

theorem climbs_of_mono (mono : Monotone next) (limit : Nat)
    (bounded : ∀ n, limit < n → tooLarge n = true) {x : Nat} (climbs : x ≤ next x) :
    Climbs next tooLarge (limit + 2) x (climb next tooLarge (limit + 2) x) :=
  ⟨climb_ends mono limit bounded climbs (by omega) (by omega),
    fun _ found => climb_least mono climbs found⟩

end Climbing

section Loops

variable (jobs : List Job) (i : Fin jobs.length)

theorem mem_hp {j : Job} (member : j ∈ hp jobs i) : j ∈ jobs := by
  rcases List.mem_map.mp member with ⟨k, _, rfl⟩
  exact List.getElem_mem k.isLt

theorem ceilDiv_mono {t : Nat} (positive : 1 ≤ t) : Monotone fun l : Nat => l ⌈/⌉ t :=
  (gc_mul_ceilDiv positive).monotone_l

theorem one_le_ceilDiv {l t : Nat} (positive : 1 ≤ t) (some_ : 1 ≤ l) : 1 ≤ l ⌈/⌉ t := by
  by_contra none
  have zero : l ⌈/⌉ t ≤ 0 := Nat.le_of_lt_succ (Nat.not_le.mp none)
  rw [ceilDiv_le_iff_le_mul positive] at zero
  omega

theorem le_busyStep (periodic : ∀ j ∈ jobs, 1 ≤ j.t) (bottom : Nat) {l : Nat} (some_ : 1 ≤ l) :
    blocking jobs i bottom + jobs[i].c + ((hp jobs i).map Job.c).sum ≤
      busyStep jobs i bottom l := by
  apply Nat.add_le_add
  · apply Nat.add_le_add_left
    exact Nat.le_mul_of_pos_right _ (one_le_ceilDiv (periodic _ (List.getElem_mem i.isLt)) some_)
  · apply List.sum_le_sum
    intro j member
    exact Nat.le_mul_of_pos_right _
      (one_le_ceilDiv (periodic j (mem_hp jobs i member)) some_)

end Loops

section Sums

variable {jobs : List Job} {i : Fin jobs.length}

theorem sum_map_filter {α : Type} (l : List α) (p : α → Bool) (f : α → Nat) :
    ((l.filter p).map f).sum = (l.map fun x => if p x then f x else 0).sum := by
  induction l with
  | nil => rfl
  | cons x l ih =>
    rw [List.map_cons, List.sum_cons, ← ih]
    cases p_x : p x with
    | true => rw [List.filter_cons_of_pos p_x, List.map_cons, List.sum_cons, if_pos rfl]
    | false =>
      rw [List.filter_cons_of_neg (by rw [p_x]; exact Bool.false_ne_true),
        if_neg Bool.false_ne_true, Nat.zero_add]

theorem sum_hp (f : Job → Nat) : ((hp jobs i).map f).sum =
    ∑ k with k ≠ i ∧ jobs[k].rank ≤ jobs[i].rank, f jobs[k] := by
  rw [hp, List.map_map, sum_map_filter, ← Fin.sum_univ_def, Finset.sum_filter]
  apply Finset.sum_congr rfl
  intro k _
  simp

theorem sum_preempt (top : Nat) (f : Job → Nat) :
    ((preempt jobs top).map f).sum = ∑ k : Fin jobs.length with jobs[k].rank < top, f jobs[k] := by
  rw [preempt, sum_map_filter, ← Fin.sum_univ_fun_getElem, Finset.sum_filter]
  apply Finset.sum_congr rfl
  intro k _
  simp

theorem le_blocking {bottom : Nat} {k : Fin jobs.length} (less : jobs[i].rank < jobs[k].rank)
    (inside : jobs[k].rank ≤ bottom) : jobs[k].c ≤ blocking jobs i bottom := by
  have member : jobs[k].c ∈
      (jobs.filter fun j => jobs[i].rank < j.rank && j.rank ≤ bottom).map Job.c := by
    apply List.mem_map_of_mem
    refine List.mem_filter.mpr ⟨List.getElem_mem k.isLt, ?_⟩
    rw [Bool.and_eq_true]
    exact ⟨decide_eq_true less, decide_eq_true inside⟩
  rw [blocking]
  cases greatest : ((jobs.filter fun j => jobs[i].rank < j.rank && j.rank ≤ bottom).map
      Job.c).max? with
  | none =>
    rw [List.max?_eq_none_iff.mp greatest] at member
    cases member
  | some most => exact (List.max?_eq_some_iff.mp greatest).2 _ member

end Sums

section Soundness

variable {jobs : List Job} {i : Fin jobs.length} {top bottom : Nat}

theorem foldlM_jobResponse {qs : List Nat} {w r : Nat}
    (found : qs.foldlM (jobResponse jobs i top bottom) w = some r) :
    w ≤ r ∧ (w ≤ jobs[i].d → r ≤ jobs[i].d) ∧ ∀ q ∈ qs, ∃ s f,
      startTime jobs i bottom q = some s ∧ finishTime jobs i top q s = some f ∧
        f - q * jobs[i].t ≤ r := by
  induction qs generalizing w with
  | nil =>
    cases found
    exact ⟨le_rfl, id, nofun⟩
  | cons q qs ih =>
    rw [List.foldlM_cons] at found
    rcases Option.bind_eq_some_iff.mp found with ⟨v, first, rest⟩
    rcases ih rest with ⟨grows, meets, others⟩
    rcases Option.bind_eq_some_iff.mp first with ⟨s, started, first⟩
    rcases Option.bind_eq_some_iff.mp first with ⟨f, finished, first⟩
    split_ifs at first with late
    cases first
    refine ⟨le_trans (le_max_left _ _) grows, ?_, ?_⟩
    · intro early
      exact meets (max_le early (Nat.not_lt.mp late))
    · intro p member
      rcases List.mem_cons.mp member with rfl | later
      · exact ⟨s, f, started, finished, le_trans (le_max_right _ _) grows⟩
      · exact others p later

theorem responseTime_sound (overUtilised : Job → List Job → Bool) (jobs : List Job)
    (periodic : ∀ j ∈ jobs, 1 ≤ j.t) (i : Fin jobs.length) (band : Nat → Nat)
    (contiguous : Monotone band) (top bottom : Nat)
    (covers : ∀ j ∈ jobs, band j.rank = band jobs[i].rank ↔ top ≤ j.rank ∧ j.rank ≤ bottom)
    (r : Nat) (bound : responseTime jobs i overUtilised top bottom = some r) :
    r ≤ jobs[i].d ∧ ∀ (I : Type) [DecidableEq I]
      (a : Releases (Fin jobs.length) I (fun k => jobs[k].c) fun k => jobs[k].t)
      (sched : Schedule a (fun k => jobs[k].rank) band) (x : I), a.job x = i →
        a.work x ≤ served sched.runs x (a.release x + r) := by
  rw [responseTime] at bound
  split_ifs at bound
  rcases Option.bind_eq_some_iff.mp bound with ⟨l, busy, folded⟩
  rcases foldlM_jobResponse folded with ⟨_, meets, each⟩
  refine ⟨meets (Nat.zero_le _), ?_⟩
  intro I _ a sched x own
  subst own
  have positive : ∀ k : Fin jobs.length, 0 < jobs[k].t :=
    fun k => periodic _ (List.getElem_mem k.isLt)
  rcases Nat.eq_zero_or_pos (blocking jobs (a.job x) bottom + jobs[a.job x].c +
    ((hp jobs (a.job x)).map Job.c).sum) with none | some_
  · have bounded : a.work x ≤ jobs[a.job x].c := a.bounded x
    omega
  · have long : 1 ≤ l :=
      climb_keeps (fun _ longer => some_.trans_le (le_busyStep jobs _ periodic bottom longer))
        some_ busy
    have among : ∀ q < l ⌈/⌉ jobs[a.job x].t, ∃ s f, startTime jobs (a.job x) bottom q = some s ∧
        finishTime jobs (a.job x) top q s = some f ∧ f - q * jobs[a.job x].t ≤ r := by
      intro q less
      exact each q (List.mem_range.mpr (lt_of_lt_of_le less (le_max_left _ _)))
    choose! S F started finished within using among
    have ahead : ∀ k : Fin jobs.length,
        band jobs[k].rank < band jobs[a.job x].rank → jobs[k].rank < top := by
      intro k above
      by_contra inside
      have mine := (covers _ (List.getElem_mem (a.job x).isLt)).mp rfl
      have before : jobs[k].rank < jobs[a.job x].rank := by
        by_contra behind
        exact absurd above (Nat.not_lt.mpr (contiguous (Nat.not_lt.mp behind)))
      have same := (covers _ (List.getElem_mem k.isLt)).mpr
        ⟨Nat.not_lt.mp inside, before.le.trans mine.2⟩
      exact absurd same (Nat.ne_of_lt above)
    have blocks : ∀ k : Fin jobs.length, jobs[a.job x].rank < jobs[k].rank →
        band jobs[k].rank = band jobs[a.job x].rank →
        jobs[k].c ≤ blocking jobs (a.job x) bottom := by
      intro k behind same
      exact le_blocking behind ((covers _ (List.getElem_mem k.isLt)).mp same).2
    have demand : blocking jobs (a.job x) bottom +
        ∑ k : Fin jobs.length with jobs[k].rank ≤ jobs[a.job x].rank,
          l ⌈/⌉ jobs[k].t * jobs[k].c ≤ l := by
      have fixed := climb_fixed busy
      rw [busyStep, sum_hp] at fixed
      rw [Schedule.sum_split (fun k : Fin jobs.length => l ⌈/⌉ jobs[k].t * jobs[k].c)
        (fun k => jobs[k].rank), ← Nat.add_assoc]
      simp only [Nat.mul_comm (_ ⌈/⌉ _)]
      exact fixed.le
    have fits : ∀ q < l ⌈/⌉ jobs[a.job x].t, startStep jobs (a.job x) bottom q (S q) ≤ S q :=
      fun q less => (climb_fixed (started q less)).le
    simp only [startStep, sum_hp] at fits
    have ends : ∀ q < l ⌈/⌉ jobs[a.job x].t, S q + jobs[a.job x].c +
        ∑ k : Fin jobs.length with band jobs[k].rank < band jobs[a.job x].rank,
          (F q ⌈/⌉ jobs[k].t - (S q / jobs[k].t + 1)) * jobs[k].c ≤ F q := by
      intro q less
      have fixed := climb_fixed (finished q less)
      rw [finishStep, sum_preempt] at fixed
      refine le_trans (Nat.add_le_add_left ?_ _) fixed.le
      apply Finset.sum_le_sum_of_subset
      intro k member
      exact Finset.mem_filter.mpr ⟨Finset.mem_univ k, ahead k (Finset.mem_filter.mp member).2⟩
    rcases sched.completes contiguous x positive blocks long demand fits ends with ⟨q, less, done⟩
    exact done.trans (served_mono _ x (Nat.add_le_add_left (within q less) _))

/-- A job that arrives while a less urgent one of its band runs. -/
def twoJobs : List Job := [⟨"a", 0, 1, 4, 4⟩, ⟨"b", 1, 2, 8, 8⟩]

def blockedReleases :
    Releases (Fin twoJobs.length) (Fin 2) (fun k => twoJobs[k].c) fun k => twoJobs[k].t where
  job := id
  release := ![1, 0]
  work := ![1, 2]
  bounded := by decide
  apart := fun _ _ same distinct => absurd same distinct

def blockedRuns (t : Nat) : Option (Fin 2) :=
  if t < 2 then some ⟨1, Nat.one_lt_two⟩ else if t = 2 then some ⟨0, Nat.zero_lt_two⟩ else none

theorem served_blockedRuns (x : Fin 2) (t : Nat) :
    served blockedRuns x (t + 3) = blockedReleases.work x := by
  induction t with
  | zero =>
    revert x
    decide
  | succ t ih =>
    have idle : blockedRuns (t + 3) = none := by
      rw [blockedRuns, if_neg (by omega), if_neg (by omega)]
    rw [Nat.add_right_comm, served_succ, ih, idle]
    rfl

theorem not_pending_late {t : Nat} (late : ¬ t < 3) (x : Fin 2) :
    ¬ Pending blockedReleases blockedRuns x t := by
  rcases Nat.exists_eq_add_of_le' (Nat.not_lt.mp late) with ⟨n, rfl⟩
  rintro ⟨_, short⟩
  rw [served_blockedRuns] at short
  exact lt_irrefl _ short

theorem runs_early {t : Nat} {x : Fin 2} (runs : blockedRuns t = some x) : t < 3 := by
  by_contra late
  rw [blockedRuns, if_neg (by omega), if_neg (by omega)] at runs
  cases runs

def blockedSchedule : Schedule blockedReleases (fun k => twoJobs[k].rank) fun _ => 0 where
  runs := blockedRuns
  pending := by
    intro t x runs
    have early := runs_early runs
    revert x
    interval_cases t <;> decide
  busy := by
    intro t y waiting
    by_cases early : t < 3
    · revert y
      interval_cases t <;> decide
    · exact absurd waiting (not_pending_late early y)
  preempts := fun _ _ _ _ _ => le_rfl
  keeps := by
    intro t x y runs
    have early := runs_early runs
    revert x y
    interval_cases t <;> decide
  starts := by
    intro t x y runs
    have early := runs_early runs
    revert x y
    interval_cases t <;> decide

theorem responseTime_sound_blocked : ∃ r,
    responseTime twoJobs ⟨0, by decide⟩ (fun _ _ => false) 0 1 = some r ∧
      1 ≤ served blockedRuns 0 (1 + r) :=
  ⟨3, by decide +kernel,
    (responseTime_sound (fun _ _ => false) twoJobs (by decide) ⟨0, by decide⟩ (fun _ => 0)
      (fun _ _ _ => le_rfl) 0 1 (by decide) 3 (by decide +kernel)).2 (Fin 2) blockedReleases
        blockedSchedule 0 rfl⟩

end Soundness

end NanoRos.ResponseTime

/-! The preemption levels of one core: the fewest bands of ranks in which every callback still meets
its deadline, and the plan that is derived with them. -/

namespace NanoRos.Levels

open ResponseTime

/-- What is computed in floating point: the utilisation test and the slack `(D - R) / D`. -/
structure Floats (F : Type) where
  overUtilised : Job → List Job → Bool
  infinity : F
  slack : Nat → Nat → F
  least : F → F → F
  greater : F → F → Bool

section Bands

variable {F : Type} (floats : Floats F) (jobs : List Job)

def bandSlack (top bottom : Nat) : Option F :=
  (List.finRange jobs.length).foldlM (fun least i =>
    if jobs[i].rank < top ∨ bottom < jobs[i].rank then some least
    else
      (responseTime jobs i floats.overUtilised top bottom).map fun r =>
        floats.least least (floats.slack jobs[i].d r)) floats.infinity

def fewestFeasibleBands (n : Nat) : Option (List (Nat × Nat)) :=
  Segments.fewest ⟨floats.infinity, floats.least, floats.greater⟩ (bandSlack floats jobs) n

/-- Every job of the band has a response time in it. -/
def BandFits (band : Nat × Nat) : Prop :=
  ∀ i : Fin jobs.length, band.1 ≤ jobs[i].rank → jobs[i].rank ≤ band.2 →
    (responseTime jobs i floats.overUtilised band.1 band.2).isSome

/-- Bands one after another over the ranks below `n`, in each of which every job of it fits. -/
def Banding (bands : List (Nat × Nat)) (n : Nat) : Prop :=
  Segments.Consecutive 0 bands n ∧ ∀ band ∈ bands, BandFits floats jobs band

end Bands

/-! ### The input and the plan -/

structure LevelNode where
  node : String
  priority : Int
  protected_ : Option String

structure PinnedBand where
  schedTask : String
  priority : Int
  members : List LevelNode

inductive ReleaseKind where
  | periodic
  | sporadic
  | served
  | unanalysable
  deriving DecidableEq

/-- A callback's record, in microseconds. -/
structure CallbackRecord where
  callback : String
  node : String
  release : ReleaseKind
  periodUs : Option Nat
  deadlineUs : Option Nat
  execUs : Option Nat
  budgetUs : Option Nat
  budgetPeriodUs : Option Nat

inductive LevelMethod where
  | perRank
  | responseTime
  | capped
  | responseTimeCapped
  deriving DecidableEq

structure LevelMember where
  node : String
  rank : Nat
  priority : Int
  schedTask : Option String

structure Level where
  index : Nat
  priority : Int
  threshold : Nat
  members : List LevelMember
  schedTasks : List String
  bestEffort : List (String × Nat)

inductive LevelDim where
  | levelBudget
  | level
  | feasibility
  deriving DecidableEq

structure LevelDegradation where
  node : String
  dim : LevelDim

structure LevelPlan where
  core : Option Nat
  maxLevels : Nat
  capSource : String
  method : LevelMethod
  levels : List Level
  degradations : List LevelDegradation

structure LevelInput where
  core : Option Nat
  floatingInterference : Bool
  free : List LevelNode
  pinned : List PinnedBand
  callbackRecords : List CallbackRecord
  maxLevels : Nat
  capSource : String
  lowNumberIsHigh : Bool
  timeSlicing : Bool
  rankedPriorities : List Int

/-- A callback's C and T; a served one is the periodic task of its budget. -/
def timesOf (t : CallbackRecord) : Option (Nat × Nat) :=
  match t.release with
  | .periodic | .sporadic => do some (← t.execUs, ← t.periodUs)
  | .served => do some (← t.budgetUs, ← t.budgetPeriodUs)
  | .unanalysable => none

def jobOf (t : CallbackRecord) (rank : Nat) : Option Job := do
  let (c, period) ← timesOf t
  if period = 0 then none else do some ⟨t.callback, rank, c, period, ← t.deadlineUs⟩

/-- A band during the derivation, of indices into the free ranks. -/
structure FreeBand where
  segment : Nat
  top : Nat
  bottom : Nat

namespace LevelInput

variable (input : LevelInput)

/-- The more urgent first, in a stable sort. -/
def urgentFirst (a b : Int) : Ordering :=
  if input.lowNumberIsHigh then compare a b else compare b a

/-- `sort_by(urgent_first)` and `dedup`. -/
def distinctPriorities (priorities : List Int) : List Int :=
  (priorities.insertionSort fun a b => (input.urgentFirst a b).isLE).destutter (· ≠ ·)

def distinct : List Int :=
  input.distinctPriorities
    ((input.free ++ input.pinned.flatMap PinnedBand.members).map LevelNode.priority ++
      input.rankedPriorities)

def rankOf (p : Int) : Nat := min ((input.distinct.idxOf? p).getD 0) 255

def freePrios : List Int := input.distinctPriorities (input.free.map LevelNode.priority)

def nodesAt (p : Int) : List LevelNode := input.free.filter (·.priority = p)

def splits (prev p : Int) : Bool :=
  input.pinned.any fun pin =>
    (input.urgentFirst prev pin.priority).isLT && (input.urgentFirst pin.priority p).isLT

/-- The segment of each rank: a pin's priority between two ranks starts the next one. -/
def walkSegments : Nat → List Int → List Nat
  | _, [] => []
  | seg, [_] => [seg]
  | seg, prev :: p :: rest =>
    seg :: walkSegments (if input.splits prev p then seg + 1 else seg) (p :: rest)

def segmentOf : List Nat := input.walkSegments 0 input.freePrios

def segments : Nat := (input.segmentOf.getLast?.map (· + 1)).getD 0

def cap : Nat := max input.maxLevels 1

def freeBudget : Nat := max (input.cap - input.pinned.length) input.segments

def capReport : List LevelDegradation :=
  if input.cap < input.pinned.length + input.segments then
    [⟨"max_levels = " ++ toString input.maxLevels, .levelBudget⟩]
  else []

def perRank : List FreeBand := input.segmentOf.mapIdx fun k segment => ⟨segment, k, k⟩

def freeRecords : List CallbackRecord :=
  input.callbackRecords.filter fun t => t.node ∈ input.free.map LevelNode.node

def rankIndex (node : String) : Option Nat := do
  let n ← input.free.find? (·.node = node)
  input.freePrios.idxOf? n.priority

def jobs : Option (List Job) :=
  if input.pinned.isEmpty && !input.floatingInterference && !input.freeRecords.isEmpty then
    input.freeRecords.mapM fun t => do jobOf t (← input.rankIndex t.node)
  else none

/-- The nodes of the ranks `top..=bottom`. -/
def nodesIn (top bottom : Nat) : List LevelNode :=
  ((input.freePrios.drop top).take (bottom + 1 - top)).flatMap input.nodesAt

def protectedOf (b : FreeBand) : Option (String × String) :=
  (input.nodesIn b.top b.bottom).findSome? fun n => n.protected_.map fun why => (why, n.node)

end LevelInput

/-! ### The rules -/

/-- The bands as a rule leaves them. -/
structure Banded where
  method : LevelMethod
  bands : List FreeBand
  analysed : Bool
  degradations : List LevelDegradation

section Rules

variable {F : Type} (floats : Floats F) (input : LevelInput)

/-- The callbacks that miss their deadline with a level per rank. -/
def missed (jobs : List Job) : List LevelDegradation :=
  ((List.finRange jobs.length).filter fun i =>
    (responseTime jobs i floats.overUtilised jobs[i].rank jobs[i].rank).isNone).map fun i =>
      ⟨jobs[i].callback, .feasibility⟩

def analysedMerge : Banded :=
  match input.jobs with
  | none => ⟨.perRank, input.perRank, false, []⟩
  | some jobs =>
    match fewestFeasibleBands floats jobs input.freePrios.length with
    | some found =>
      ⟨if found.length < input.perRank.length then .responseTime else .perRank,
        found.map fun band => ⟨0, band.1, band.2⟩, true, []⟩
    | none => ⟨.perRank, input.perRank, false, missed floats jobs⟩

def joinAt (bands : List FreeBand) (i : Nat) : List FreeBand :=
  match bands[i + 1]? with
  | none => bands
  | some next => (bands.modify i fun b => { b with bottom := next.bottom }).eraseIdx (i + 1)

/-- The pairs of neighbours in one segment, the least urgent first. -/
def pairs (bands : List FreeBand) : List Nat :=
  (List.range (bands.length - 1)).reverse.filter fun i =>
    bands[i]?.map FreeBand.segment = bands[i + 1]?.map FreeBand.segment

def capOnce (bands : List FreeBand) : Option (List FreeBand × List LevelDegradation) :=
  match pairs bands with
  | [] => none
  | first :: _ =>
    match (pairs bands).find? fun i => (bands[i]?.bind input.protectedOf).isNone with
    | some i => some (joinAt bands i, [])
    | none =>
      let holder := ((bands[first]?.bind input.protectedOf).map Prod.snd).getD "?"
      some (joinAt bands first, [⟨holder, .levelBudget⟩])

/-- Rule 3, and whether it merged anything. -/
def capLoop : Nat → List FreeBand → List FreeBand × List LevelDegradation × Bool
  | 0, bands => (bands, [], false)
  | fuel + 1, bands =>
    if bands.length ≤ input.freeBudget then (bands, [], false)
    else
      match capOnce input bands with
      | none => (bands, [], false)
      | some (bands, reports) =>
        let (bands, more, _) := capLoop fuel bands
        (bands, reports ++ more, true)

def banded : Banded :=
  let merged := analysedMerge floats input
  let (bands, reports, joined) := capLoop input merged.bands.length merged.bands
  ⟨if joined then if merged.analysed then .responseTimeCapped else .capped else merged.method,
    bands, merged.analysed, merged.degradations ++ reports⟩

def memberOf (schedTask : Option String) (n : LevelNode) : LevelMember :=
  ⟨n.node, input.rankOf n.priority, n.priority, schedTask⟩

def bandLevel (b : FreeBand) : Level :=
  let priority := (input.freePrios[b.top]?).getD 0
  ⟨0, priority, input.rankOf priority, (input.nodesIn b.top b.bottom).map (memberOf input none),
    [], []⟩

def sortByRank (members : List LevelMember) : List LevelMember :=
  members.insertionSort fun a b => a.rank ≤ b.rank

def pinLevel (pin : PinnedBand) : Level :=
  let members := sortByRank (pin.members.map (memberOf input (some pin.schedTask)))
  ⟨0, pin.priority, (members.head?.map LevelMember.rank).getD 0, members, [pin.schedTask], []⟩

def sortedLevels (bands : List FreeBand) : List Level :=
  (bands.map (bandLevel input) ++ input.pinned.map (pinLevel input)).insertionSort fun a b =>
    ((input.urgentFirst a.priority b.priority).then
      (compare b.schedTasks.length a.schedTasks.length)).isLE

def mergeEqual (merged : List Level × List LevelDegradation) (l : Level) :
    List Level × List LevelDegradation :=
  match merged.1.getLast? with
  | none => (merged.1 ++ [l], merged.2)
  | some prev =>
    if prev.priority = l.priority then
      let names := l.members.map fun m => "`" ++ m.node ++ "`"
      let members := sortByRank (prev.members ++ l.members)
      let prev := { prev with
        members := members
        threshold := (members.head?.map LevelMember.rank).getD prev.threshold
        schedTasks := l.schedTasks.foldl (fun tasks t =>
          if t ∈ tasks then tasks else tasks ++ [t]) prev.schedTasks }
      (merged.1.dropLast ++ [prev], merged.2 ++ [⟨", ".intercalate names, .level⟩])
    else (merged.1 ++ [l], merged.2)

def sliced (levels : List Level) : List Level × List LevelDegradation :=
  if input.timeSlicing then levels.foldl mergeEqual ([], []) else (levels, [])

/-- Rule 5: the free members that lose their rank. -/
def lostRanks (levels : List Level) : List LevelDegradation :=
  levels.flatMap fun l =>
    ((l.members.filter (·.schedTask.isNone)).filter (·.rank ≠ l.threshold)).map fun m =>
      ⟨m.node, .levelBudget⟩

/-- The level's place, and the callbacks that go to its least urgent rank. -/
def finished (k : Nat) (l : Level) : Level :=
  let floor := (l.members.map LevelMember.rank).max?.getD 0
  { l with
    index := k
    bestEffort := (input.callbackRecords.filter fun t =>
      t.release = .unanalysable && l.members.any (·.node = t.node)).map fun t =>
        (t.callback, floor) }

def deriveLevels : LevelPlan :=
  let banded := banded floats input
  let (levels, slicing) := sliced input (sortedLevels input banded.bands)
  ⟨input.core, input.maxLevels, input.capSource, banded.method, levels.mapIdx (finished input),
    input.capReport ++ banded.degradations ++ slicing ++ lostRanks levels⟩

end Rules

/-! ### The bands -/

section Bands

variable {F : Type} {floats : Floats F} {jobs : List Job}

theorem bandSlack_isSome {top bottom : Nat} :
    (bandSlack floats jobs top bottom).isSome ↔ BandFits floats jobs (top, bottom) := by
  have folded : ∀ (is : List (Fin jobs.length)) (least : F), (is.foldlM (fun least i =>
        if jobs[i].rank < top ∨ bottom < jobs[i].rank then some least
        else
          (responseTime jobs i floats.overUtilised top bottom).map fun r =>
            floats.least least (floats.slack jobs[i].d r)) least).isSome ↔
        ∀ i ∈ is, top ≤ jobs[i].rank → jobs[i].rank ≤ bottom →
          (responseTime jobs i floats.overUtilised top bottom).isSome := by
    intro is
    induction is with
    | nil => simp
    | cons i is ih =>
      intro least
      rw [List.foldlM_cons, List.forall_mem_cons]
      by_cases outside : jobs[i].rank < top ∨ bottom < jobs[i].rank
      · rw [if_pos outside, Option.bind_eq_bind, Option.bind_some, ih]
        constructor
        · exact fun rest => ⟨fun above below => by omega, rest⟩
        · exact fun all => all.2
      · have inside : top ≤ jobs[i].rank ∧ jobs[i].rank ≤ bottom := by omega
        rw [if_neg outside]
        cases responseTime jobs i floats.overUtilised top bottom with
        | none =>
          constructor
          · intro never
            cases never
          · rintro ⟨here, _⟩
            cases here inside.1 inside.2
        | some r =>
          rw [Option.map_some, Option.bind_eq_bind, Option.bind_some, ih]
          constructor
          · exact fun rest => ⟨fun _ _ => rfl, rest⟩
          · exact fun all => all.2
  rw [bandSlack, folded]
  simp only [List.mem_finRange, forall_const, BandFits]

theorem feasible_iff {bands : List (Nat × Nat)} {n : Nat} :
    Segments.Feasible (bandSlack floats jobs) bands n ↔ Banding floats jobs bands n :=
  and_congr_right fun _ => forall₂_congr fun _ _ => bandSlack_isSome

theorem fewestFeasibleBands_sound {bands : List (Nat × Nat)} {n : Nat}
    (returned : fewestFeasibleBands floats jobs n = some bands) :
    Banding floats jobs bands n ∧
      ∀ others, Banding floats jobs others n → bands.length ≤ others.length := by
  obtain ⟨feasible, least⟩ := Segments.fewest_sound returned
  exact ⟨feasible_iff.mp feasible, fun others fits => least others (feasible_iff.mpr fits)⟩

theorem fewestFeasibleBands_isSome {n : Nat} :
    (fewestFeasibleBands floats jobs n).isSome ↔ ∃ bands, Banding floats jobs bands n := by
  constructor
  · intro returned
    obtain ⟨bands, found⟩ := Option.isSome_iff_exists.mp returned
    exact ⟨bands, (fewestFeasibleBands_sound found).1⟩
  · rintro ⟨bands, fits⟩
    exact Segments.fewest_complete (feasible_iff.mpr fits)

theorem responseTime_le {i : Fin jobs.length} {top bottom r : Nat}
    (bound : responseTime jobs i floats.overUtilised top bottom = some r) : r ≤ jobs[i].d := by
  rw [responseTime] at bound
  split_ifs at bound
  obtain ⟨l, busy, folded⟩ := Option.bind_eq_some_iff.mp bound
  exact (foldlM_jobResponse folded).2.1 (Nat.zero_le _)

end Bands

/-! ### The derivation -/

theorem forall₂_of_mapM {α β : Type} {f : α → Option β} {l : List α} {out : List β}
    (done : l.mapM f = some out) : List.Forall₂ (fun a b => f a = some b) l out := by
  induction l generalizing out with
  | nil =>
    cases done
    exact .nil
  | cons a l ih =>
    rw [List.mapM_cons] at done
    obtain ⟨b, first, done⟩ := Option.bind_eq_some_iff.mp done
    obtain ⟨rest, later, done⟩ := Option.bind_eq_some_iff.mp done
    cases done
    exact .cons first (ih later)

theorem jobOf_eq_some {t : CallbackRecord} {rank : Nat} {job : Job}
    (made : jobOf t rank = some job) : job.callback = t.callback ∧ job.rank = rank := by
  obtain ⟨⟨c, period⟩, _, made⟩ := Option.bind_eq_some_iff.mp made
  simp only at made
  split_ifs at made
  obtain ⟨d, _, made⟩ := Option.bind_eq_some_iff.mp made
  cases made
  exact ⟨rfl, rfl⟩

namespace LevelInput

variable {input : LevelInput}

theorem urgentFirst_le_iff {a b : Int} :
    (input.urgentFirst a b).isLE ↔ if input.lowNumberIsHigh then a ≤ b else b ≤ a := by
  rw [urgentFirst]
  split <;> simp [Std.isLE_compare]

/-- The relation the priorities are sorted by. -/
abbrev Before (input : LevelInput) (a b : Int) : Prop := (input.urgentFirst a b).isLE

instance : Std.Total input.Before where
  total a b := by
    simp only [urgentFirst_le_iff]
    split <;> omega

instance : IsTrans Int input.Before where
  trans a b c := by
    simp only [urgentFirst_le_iff]
    split <;> omega

theorem Before.antisymm {a b : Int} (before : input.Before a b) (after : input.Before b a) :
    a = b := by
  simp only [urgentFirst_le_iff] at before after
  split at before <;> simp_all <;> omega

theorem nodup_of_sorted {l : List Int} (sorted : l.Pairwise input.Before)
    (apart : l.IsChain (· ≠ ·)) : l.Nodup := by
  induction l with
  | nil => exact .nil
  | cons a l ih =>
    rw [List.pairwise_cons] at sorted
    refine List.nodup_cons.mpr ⟨?_, ih sorted.2 apart.tail⟩
    intro again
    cases l with
    | nil => cases again
    | cons b l =>
      have distinct : a ≠ b := (List.isChain_cons_cons.mp apart).1
      obtain rfl | later := List.mem_cons.mp again
      · exact distinct rfl
      · exact distinct ((sorted.1 b (.head _)).antisymm
          ((List.pairwise_cons.mp sorted.2).1 a later))

theorem distinctPriorities_nodup (priorities : List Int) :
    (input.distinctPriorities priorities).Nodup :=
  nodup_of_sorted
    ((List.pairwise_insertionSort input.Before priorities).sublist (List.destutter_sublist _ _))
    (List.isChain_destutter _ _)

theorem rankIndex_eq_some {node : String} {k : Nat} (found : input.rankIndex node = some k) :
    ∃ n ∈ input.free, n.node = node ∧ input.freePrios[k]? = some n.priority := by
  obtain ⟨n, first, place⟩ := Option.bind_eq_some_iff.mp found
  have named := List.find?_some first
  rw [decide_eq_true_eq] at named
  refine ⟨n, List.mem_of_find?_eq_some first, named, ?_⟩
  obtain ⟨small, here, _⟩ := List.idxOf?_eq_some_iff.mp place
  rw [List.getElem?_eq_getElem small, here]

theorem jobs_eq_some {jobs : List Job} (analysed : input.jobs = some jobs) :
    input.pinned = [] ∧
      List.Forall₂ (fun t job => (input.rankIndex t.node).bind (jobOf t) = some job)
        input.freeRecords jobs := by
  rw [LevelInput.jobs] at analysed
  split at analysed
  case isFalse => cases analysed
  case isTrue conditions =>
    simp only [Bool.and_eq_true, List.isEmpty_iff] at conditions
    exact ⟨conditions.1.1, forall₂_of_mapM analysed⟩

theorem mem_nodesIn {n : LevelNode} {top bottom k : Nat} (free : n ∈ input.free)
    (place : input.freePrios[k]? = some n.priority) (above : top ≤ k) (below : k ≤ bottom) :
    n ∈ input.nodesIn top bottom := by
  apply List.mem_flatMap.mpr
  refine ⟨n.priority, ?_, List.mem_filter.mpr ⟨free, decide_eq_true rfl⟩⟩
  apply List.mem_of_getElem? (i := k - top)
  rw [List.getElem?_take_of_lt (by omega), List.getElem?_drop, Nat.add_sub_cancel' above, place]

end LevelInput

/-! ### The cap -/

theorem joinAt_segments (bands : List FreeBand) (i : Nat) :
    (joinAt bands i).map FreeBand.segment = (bands.map FreeBand.segment).eraseIdx (i + 1) := by
  apply List.ext_getElem?
  grind [joinAt]

/-- Segments of the input, in order. -/
def InOrder (input : LevelInput) (l : List Nat) : Prop :=
  l.Pairwise (· ≤ ·) ∧ ∀ s ∈ l, s < input.segments

theorem capLoop_within {input : LevelInput} {fuel : Nat} {bands : List FreeBand}
    (enough : bands.length ≤ fuel) (ordered : InOrder input (bands.map FreeBand.segment)) :
    (capLoop input fuel bands).1.length ≤ input.freeBudget := by
  induction fuel generalizing bands with
  | zero => exact enough.trans (Nat.zero_le _)
  | succ fuel ih =>
    rw [capLoop]
    split
    case isTrue fits => exact fits
    split
    case h_1 nothing =>
      -- No two neighbours share a segment, so the segments climb.
      have climbs : (bands.map FreeBand.segment).IsChain (· < ·) := by
        have weakly := ordered.1.isChain
        rw [List.isChain_iff_getElem] at weakly ⊢
        intro i next
        have apart : i ∉ pairs bands := by grind [capOnce]
        grind [pairs]
      have few := List.Nodup.length_le_of_subset (climbs.pairwise.imp Nat.ne_of_lt)
        fun s member => List.mem_range.mpr (ordered.2 s member)
      rw [List.length_map, List.length_range] at few
      exact few.trans (le_max_right ..)
    case h_2 after _ merged =>
      obtain ⟨i, pair, rfl⟩ : ∃ i ∈ pairs bands, after = joinAt bands i := by grind [capOnce]
      have kept := List.eraseIdx_sublist (bands.map FreeBand.segment) (i + 1)
      have shorter : (joinAt bands i).length < bands.length := by grind [pairs, joinAt]
      rw [← joinAt_segments] at kept
      exact ih (by omega) ⟨ordered.1.sublist kept, fun s m => ordered.2 s (kept.subset m)⟩

theorem walkSegments_ordered (input : LevelInput) (seg : Nat) (l : List Int) :
    (seg :: input.walkSegments seg l).Pairwise (· ≤ ·) ∧
      (input.walkSegments seg l).length = l.length := by
  fun_induction LevelInput.walkSegments input seg l with grind [List.pairwise_cons]

/-- Rule 3 ends with the bands within their budget. -/
theorem banded_within {F : Type} (floats : Floats F) (input : LevelInput) :
    (banded floats input).bands.length ≤ input.freeBudget := by
  obtain ⟨ordered, ranks⟩ := walkSegments_ordered input 0 input.freePrios
  have walked : InOrder input input.segmentOf := by
    refine ⟨ordered.tail, fun s member => ?_⟩
    have last := ordered.tail.rel_getLast member
    grind [LevelInput.segments, LevelInput.segmentOf]
  have perRank : input.perRank.map FreeBand.segment = input.segmentOf := by
    apply List.ext_getElem?
    grind [LevelInput.perRank]
  apply capLoop_within le_rfl
  rw [analysedMerge]
  split
  case h_1 => exact perRank ▸ walked
  split
  case h_2 => exact perRank ▸ walked
  case h_1 found fewest =>
    -- The bands found are in one segment.
    refine ⟨by simp [List.pairwise_iff_getElem], fun s member => ?_⟩
    obtain ⟨band, listed, rfl⟩ : ∃ band ∈ found, 0 = s := by grind
    obtain ⟨_, _, below⟩ := (fewestFeasibleBands_sound fewest).1.1.within band listed
    exact Nat.zero_lt_of_lt (walked.2 _ (List.getElem_mem (ranks.symm ▸ below)))

section Plan

variable {F : Type} {floats : Floats F} {input : LevelInput}

/-- The bands are merged by response time alone only where the analysis found fewer than the ranks
and the cap merged nothing. -/
theorem banded_responseTime (by_ : (banded floats input).method = .responseTime) :
    ∃ jobs found, input.jobs = some jobs ∧
      fewestFeasibleBands floats jobs input.freePrios.length = some found ∧
      (banded floats input).bands = found.map fun band => ⟨0, band.1, band.2⟩ := by
  have kept : ∀ fuel bands, (capLoop input fuel bands).2.2 = false →
      (capLoop input fuel bands).1 = bands := by
    intro fuel bands unjoined
    cases fuel with
    | zero => rfl
    | succ fuel =>
      rw [capLoop] at unjoined ⊢
      split at unjoined
      case isTrue fits => rw [if_pos fits]
      case isFalse large =>
        rw [if_neg large]
        split at unjoined
        case h_1 => rfl
        case h_2 => cases unjoined
  simp only [banded] at by_ ⊢
  split at by_
  case isTrue => split at by_ <;> cases by_
  case isFalse unjoined =>
    rw [kept _ _ (Bool.eq_false_iff.mpr unjoined)]
    rw [analysedMerge] at by_ ⊢
    split at by_
    case h_1 => cases by_
    case h_2 jobs analysed =>
      split at by_
      case h_1 found fewest =>
        exact ⟨jobs, found, analysed, fewest, rfl⟩
      case h_2 => cases by_

theorem foldl_mergeEqual {levels done : List Level} {reports : List LevelDegradation}
    (apart : (done ++ levels).Pairwise fun a b => a.priority ≠ b.priority) :
    levels.foldl mergeEqual (done, reports) = (done ++ levels, reports) := by
  induction levels generalizing done with
  | nil => rw [List.foldl_nil, List.append_nil]
  | cons l levels ih =>
    have step : mergeEqual (done, reports) l = (done ++ [l], reports) := by
      rw [mergeEqual]
      cases last : done.getLast? with
      | none => rfl
      | some prev =>
        have distinct := (List.pairwise_append.mp apart).2.2 prev
          (List.mem_of_getLast? last) l (.head _)
        exact if_neg distinct
    rw [List.foldl_cons, step, ih (by simpa using apart), List.append_assoc, List.singleton_append]

theorem sliced_of_apart {levels : List Level}
    (apart : levels.Pairwise fun a b => a.priority ≠ b.priority) :
    (sliced input levels).1 = levels := by
  rw [sliced]
  split
  · rw [@foldl_mergeEqual _ [] _ apart, List.nil_append]
  · rfl

theorem bandLevels_apart {bands : List (Nat × Nat)}
    (consecutive : Segments.Consecutive 0 bands input.freePrios.length) :
    (bands.map fun band => bandLevel input ⟨0, band.1, band.2⟩).Pairwise
      fun a b => a.priority ≠ b.priority := by
  rw [List.pairwise_map]
  apply consecutive.tops_pairwise.imp_of_mem
  intro a b inA inB before same
  obtain ⟨_, orderedA, belowA⟩ := consecutive.within a inA
  obtain ⟨_, orderedB, belowB⟩ := consecutive.within b inB
  simp only [bandLevel] at same
  rw [List.getElem?_eq_getElem (by omega), List.getElem?_eq_getElem (by omega)] at same
  have equal := (input.distinctPriorities_nodup _).getElem_inj_iff.mp same
  omega

theorem level_of_band {found : List (Nat × Nat)} {band : Nat × Nat} (unpinned : input.pinned = [])
    (consecutive : Segments.Consecutive 0 found input.freePrios.length)
    (bands : (banded floats input).bands = found.map fun band => ⟨0, band.1, band.2⟩)
    (listed : band ∈ found) :
    ∃ level ∈ (deriveLevels floats input).levels,
      level.priority = (input.freePrios[band.1]?).getD 0 ∧
        level.members = (input.nodesIn band.1 band.2).map (memberOf input none) := by
  have levels : (banded floats input).bands.map (bandLevel input) =
      found.map fun band => bandLevel input ⟨0, band.1, band.2⟩ := by
    rw [bands, List.map_map]
    rfl
  have sorts := List.perm_insertionSort (fun a b : Level =>
    ((input.urgentFirst a.priority b.priority).then
      (compare b.schedTasks.length a.schedTasks.length)).isLE)
    ((banded floats input).bands.map (bandLevel input) ++ input.pinned.map (pinLevel input))
  change (sortedLevels input (banded floats input).bands).Perm _ at sorts
  rw [unpinned, List.map_nil, List.append_nil, levels] at sorts
  have apart := (sorts.pairwise_iff (fun distinct => Ne.symm distinct)).mpr
    (bandLevels_apart consecutive)
  have member : bandLevel input ⟨0, band.1, band.2⟩ ∈
      (sliced input (sortedLevels input (banded floats input).bands)).1 := by
    rw [sliced_of_apart apart]
    exact sorts.mem_iff.mpr (List.mem_map_of_mem listed)
  obtain ⟨k, place⟩ := List.getElem?_of_mem member
  refine ⟨finished input k (bandLevel input ⟨0, band.1, band.2⟩), ?_, rfl, rfl⟩
  apply List.mem_of_getElem? (i := k)
  simp only [deriveLevels, List.getElem?_mapIdx, place, Option.map_some]

end Plan

/-- A callback's level in a plan: the level of a band that holds its rank and its node, and in
which it answers within its deadline. -/
structure Placed {F : Type} (floats : Floats F) (input : LevelInput) (jobs : List Job)
    (i : Fin jobs.length) (record : CallbackRecord) (level : Level) (top bottom : Nat) : Prop where
  inPlan : level ∈ (deriveLevels floats input).levels
  members : level.members = (input.nodesIn top bottom).map (memberOf input none)
  holds : ∃ m ∈ level.members, m.node = record.node
  inBand : top ≤ jobs[i].rank ∧ jobs[i].rank ≤ bottom
  meets : ∃ r, responseTime jobs i floats.overUtilised top bottom = some r ∧ r ≤ jobs[i].d

/-- Two timers at two priorities, which one level serves in time. -/
def twoTimers : LevelInput where
  core := none
  floatingInterference := false
  free := [⟨"/a", 5, none⟩, ⟨"/b", 6, none⟩]
  pinned := []
  callbackRecords :=
    [⟨"/a/tick", "/a", .periodic, some 4, some 4, some 1, none, none⟩,
      ⟨"/b/tick", "/b", .periodic, some 8, some 8, some 2, none, none⟩]
  maxLevels := 8
  capSource := "image"
  lowNumberIsHigh := true
  timeSlicing := true
  rankedPriorities := []

/-- The arithmetic with slack in microseconds. -/
def microseconds : Floats Nat where
  overUtilised := fun j js => decide (1 < (js.map fun k => (k.c : Rat) / k.t).sum + j.c / j.t)
  infinity := 2 ^ 64
  slack := fun d r => d - r
  least := min
  greater := fun a b => decide (b < a)

end NanoRos.Levels
