import NanoRos.Node.EdfReadySet

/-! The order in which a ready set that is filled and then drained gives its jobs back. -/

namespace NanoRos

/-- The order of the pairs `(deadline_us, desc_idx)`. -/
def ActiveJob.Precedes (a b : ActiveJob) : Prop :=
  a.sortKey < b.sortKey ∨ a.sortKey = b.sortKey ∧ a.descIdx ≤ b.descIdx

instance (a b : ActiveJob) : Decidable (a.Precedes b) :=
  inferInstanceAs (Decidable (_ ∨ _ ∧ _))

namespace EdfReadySet

open ActiveJob

variable {N : Nat}

/-- `pop_next` until it finds nothing. -/
def drainLoop : Nat → EdfReadySet N → List ActiveJob
  | 0, _ => []
  | turns + 1, s =>
    match s.popNext with
    | (none, _) => []
    | (some job, next) => job :: drainLoop turns next

def drain (s : EdfReadySet N) : List ActiveJob := drainLoop s.len s

variable {s t : EdfReadySet N} {f : ActiveJob → ActiveJob} {a b job : ActiveJob}

theorem drainLoop_spec {turns : Nat} (heaped : MinHeap.Heaped ActiveJob.key s.heap s.len)
    (enough : s.len = turns) : (drainLoop turns s).Perm s.entries ∧
      (drainLoop turns s).Pairwise fun x y => x.sortKey ≤ y.sortKey := by
  induction turns generalizing s with
  | zero =>
    rw [drainLoop, List.length_eq_zero_iff.mp ((length_entries s).trans enough)]
    exact ⟨List.Perm.nil, List.Pairwise.nil⟩
  | succ turns ih =>
    rw [drainLoop]
    rcases popped : s.popNext with ⟨_ | top, next⟩
    · have empty := (popNext_none_iff s).mp (congrArg Prod.fst popped)
      rw [← List.length_eq_zero_iff, length_entries] at empty
      omega
    · rcases popNext_some heaped popped with ⟨gone, least⟩
      have fewer := gone.len
      rcases ih gone.heaped (by omega) with ⟨same, sorted⟩
      have whole := (same.cons top).trans gone.entries.symm
      refine ⟨whole, List.Pairwise.cons (fun other member => ?_) sorted⟩
      exact least other (whole.mem_iff.mp (List.mem_cons_of_mem _ member))

/-! ### Sets that hold the same jobs under other names -/

structure Renamed (f : ActiveJob → ActiveJob) (s t : EdfReadySet N) : Prop where
  len : t.len = s.len
  heap : MinHeap.Renames f s.len s.heap t.heap

theorem Renamed.popNext (keys : ∀ job, (f job).key = job.key) (renamed : Renamed f s t) :
    (t.popNext).1 = (s.popNext).1.map f ∧ Renamed f (s.popNext).2 (t.popNext).2 := by
  rw [EdfReadySet.popNext, EdfReadySet.popNext, renamed.len]
  by_cases empty : s.len = 0
  · rw [if_pos empty, if_pos empty]
    exact ⟨rfl, renamed⟩
  · rw [if_neg empty, if_neg empty]
    have root := renamed.heap 0 (Nat.pos_of_ne_zero empty)
    refine ⟨congrArg some root, ?_⟩
    dsimp only
    by_cases more : 0 < s.len - 1
    · rw [if_pos more, if_pos more]
      have replaced : MinHeap.Renames f (s.len - 1) (Function.update s.heap 0 (s.heap (s.len - 1)))
          (Function.update t.heap 0 (t.heap (s.len - 1))) := by
        intro i inside
        by_cases top : i = 0
        · rw [top, Function.update_self, Function.update_self]
          exact renamed.heap _ (Nat.pred_lt empty)
        · rw [Function.update_of_ne top, Function.update_of_ne top]
          exact renamed.heap i (inside.trans_le (Nat.sub_le _ _))
      exact ⟨rfl, replaced.siftDown keys more⟩
    · rw [if_neg more, if_neg more]
      exact ⟨rfl, fun i inside => renamed.heap i (inside.trans_le (Nat.sub_le _ _))⟩

theorem Renamed.drainLoop (keys : ∀ job, (f job).key = job.key) (renamed : Renamed f s t)
    (turns : Nat) : drainLoop turns t = (drainLoop turns s).map f := by
  induction turns generalizing s t with
  | zero => rfl
  | succ turns ih =>
    rcases renamed.popNext keys with ⟨same, next⟩
    rw [EdfReadySet.drainLoop, EdfReadySet.drainLoop]
    rcases popped : s.popNext with ⟨_ | top, after⟩ <;>
      rcases popped' : t.popNext with ⟨_ | top', after'⟩ <;> rw [popped, popped'] at same next <;>
      cases same
    · rfl
    · exact congrArg _ (ih next)

/-- The set with one more job at the end of the heap, sifted to its place. -/
def pushed (s : EdfReadySet N) (job : ActiveJob) : EdfReadySet N where
  heap := MinHeap.siftUp ActiveJob.key (Function.update s.heap s.len job) s.len
  len := s.len + 1
  present := s.present.insert job.descIdx.toNat

theorem Renamed.pushed (keys : ∀ job, (f job).key = job.key) (renamed : Renamed f s t)
    (job : ActiveJob) : Renamed f (s.pushed job) (t.pushed (f job)) := by
  refine ⟨congrArg (· + 1) renamed.len, ?_⟩
  simp only [EdfReadySet.pushed, renamed.len]
  apply MinHeap.Renames.siftUp _ keys (Nat.lt_succ_self s.len)
  intro i inside
  by_cases last : i = s.len
  · rw [last, Function.update_self, Function.update_self]
  · rw [Function.update_of_ne last, Function.update_of_ne last]
    exact renamed.heap i (by omega)

/-- Two sets of the same indices that hold `a` and `b` in each other's places. -/
structure Twin (a b : ActiveJob) (s t : EdfReadySet N) : Prop where
  renamed : Renamed (Equiv.swap a b) s t
  present : t.present = s.present
  left : s.present.has a.descIdx.toNat = true
  right : s.present.has b.descIdx.toNat = true

theorem key_swap (tie : a.sortKey = b.sortKey) (job : ActiveJob) :
    (Equiv.swap a b job).key = job.key := by
  rw [Equiv.swap_apply_def]
  split
  case isTrue left => rw [left, key, key, tie]
  case isFalse =>
    split
    case isTrue right => rw [right, key, key, tie]
    case isFalse => rfl

theorem Twin.insert (tie : a.sortKey = b.sortKey) (twin : Twin a b s t) (job : ActiveJob) :
    Twin a b (s.insert job).2 (t.insert job).2 := by
  rcases insert_cases s job with ⟨refused, result⟩ | ⟨idx, room, there, result⟩ |
    ⟨idx, room, absent, result⟩
  · rw [result, EdfReadySet.insert, twin.renamed.len, if_pos refused]
    exact twin
  · have allowed : ¬ (N ≤ job.descIdx.toNat ∨ N ≤ s.len) := by omega
    rw [result, EdfReadySet.insert, twin.renamed.len, if_neg allowed, twin.present, if_pos there]
    exact twin
  · have allowed : ¬ (N ≤ job.descIdx.toNat ∨ N ≤ s.len) := by omega
    have other : Equiv.swap a b job = job := by
      apply Equiv.swap_apply_of_ne_of_ne
      · rintro rfl
        rw [twin.left] at absent
        cases absent
      · rintro rfl
        rw [twin.right] at absent
        cases absent
    have grown := twin.renamed.pushed (key_swap tie) job
    rw [other] at grown
    have result' : (t.insert job).2 = t.pushed job := by
      rw [EdfReadySet.insert, twin.renamed.len, if_neg allowed, twin.present, absent,
        if_neg Bool.false_ne_true, EdfReadySet.pushed, twin.renamed.len, twin.present]
      rfl
    rw [result, result']
    refine ⟨grown, congrArg (Mask.insert · _) twin.present, ?_, ?_⟩
    · rw [Mask.has_insert, twin.left, Bool.true_or]
    · rw [Mask.has_insert, twin.right, Bool.true_or]

theorem insert_of_absent (idx : job.descIdx.toNat < N) (room : s.len < N)
    (absent : s.present.has job.descIdx.toNat = false) :
    s.insert job = (.ok (), s.pushed job) := by
  rcases insert_cases s job with ⟨refused, _⟩ | ⟨_, _, there, _⟩ | ⟨_, _, _, result⟩
  · omega
  · rw [there] at absent
    cases absent
  · exact result

/-- The first two jobs, of two indices. -/
structure FirstTwo (N : Nat) (a b : ActiveJob) : Prop where
  apart : a.descIdx ≠ b.descIdx
  left : a.descIdx.toNat < N
  right : b.descIdx.toNat < N

theorem FirstTwo.symm (two : FirstTwo N a b) : FirstTwo N b a :=
  ⟨two.apart.symm, two.right, two.left⟩

theorem FirstTwo.inserts (two : FirstTwo N a b) :
    (new : EdfReadySet N).insert a = (.ok (), new.pushed a) ∧
      (new.pushed a : EdfReadySet N).insert b = (.ok (), (new.pushed a).pushed b) := by
  have differ : a.descIdx.toNat ≠ b.descIdx.toNat :=
    fun same => two.apart (UInt8.toNat_inj.mp same)
  have empty (i : Nat) : (new : EdfReadySet N).present.has i = false := Mask.has_zero i
  refine ⟨insert_of_absent two.left (Nat.zero_lt_of_lt two.left) (empty _), ?_⟩
  have left := two.left
  have right := two.right
  have room : (new.pushed a : EdfReadySet N).len < N := by
    change 1 < N
    omega
  apply insert_of_absent two.right room
  rw [pushed, Mask.has_insert, empty, decide_eq_false differ, Bool.and_false, Bool.or_false]

theorem FirstTwo.twin (small : N ≤ 64) (tie : a.sortKey = b.sortKey) (two : FirstTwo N a b) :
    Twin a b ((new.pushed a).pushed b : EdfReadySet N) ((new.pushed b).pushed a) := by
  have none : Renamed (Equiv.swap a b) (new : EdfReadySet N) new :=
    ⟨rfl, fun i inside => absurd inside (Nat.not_lt_zero i)⟩
  have renamed := (none.pushed (key_swap tie) a).pushed (key_swap tie) b
  rw [Equiv.swap_apply_left, Equiv.swap_apply_right] at renamed
  have bits (x y : ActiveJob) (i : Nat) : ((new.pushed x).pushed y : EdfReadySet N).present.has i =
      (decide (x.descIdx.toNat < 64) && decide (x.descIdx.toNat = i) ||
        decide (y.descIdx.toNat < 64) && decide (y.descIdx.toNat = i)) := by
    simp [pushed, new]
  refine ⟨renamed, Mask.ext fun i _ => ?_, ?_, ?_⟩
  · rw [bits, bits, Bool.or_comm]
  · simp [bits, two.left.trans_le small]
  · simp [bits, two.right.trans_le small]

namespace ReadyLog

variable {log log' last last' : ReadyLog N} {order : List ActiveJob}

theorem inserts_reach (order : List ActiveJob) (log : ReadyLog N) :
    ∃ last, run step log (order.map ReadyOp.insert) = some last := by
  induction order generalizing log with
  | nil => exact ⟨log, rfl⟩
  | cons job order ih => exact ih _

theorem of_inserts (reached : run step log (order.map ReadyOp.insert) = some last) :
    last.popped = log.popped ∧ log.accepted ⊆ last.accepted ∧
      ∀ job ∈ last.accepted, job ∈ log.accepted ∨ job ∈ order := by
  induction order generalizing log with
  | nil =>
    cases reached
    exact ⟨rfl, List.Subset.refl _, fun _ => Or.inl⟩
  | cons job order ih =>
    rw [List.map_cons, run] at reached
    rcases Option.bind_eq_some_iff.mp reached with ⟨next, stepped, rest⟩
    rcases ih rest with ⟨popped, more, known⟩
    cases stepped
    dsimp only at popped more known
    refine ⟨popped, fun other member => more ?_, fun other member => ?_⟩
    · split
      · exact List.mem_cons_of_mem _ member
      · exact member
    · rcases known other member with before | later
      · split at before
        · rcases List.mem_cons.mp before with rfl | before
          · exact Or.inr List.mem_cons_self
          · exact Or.inl before
        · exact Or.inl before
      · exact Or.inr (List.mem_cons_of_mem _ later)

theorem twin_of_inserts (tie : a.sortKey = b.sortKey) (twin : Twin a b log.set log'.set)
    (reached : run step log (order.map ReadyOp.insert) = some last)
    (reached' : run step log' (order.map ReadyOp.insert) = some last') :
    Twin a b last.set last'.set := by
  induction order generalizing log log' with
  | nil =>
    cases reached
    cases reached'
    exact twin
  | cons job order ih => exact ih (twin.insert tie job) reached reached'

/-- What the inserts put in comes out whole, in the order of the pairs. -/
structure DrainsInOrder (log : ReadyLog N) : Prop where
  whole : log.set.drain.Perm log.accepted
  ordered : log.set.drain.Pairwise Precedes

theorem drain_perm_accepted (small : N ≤ 64)
    (reached : run step start (order.map ReadyOp.insert) = some log) :
    log.set.drain.Perm log.accepted := by
  have sound := run_invariant (sound_step small) start log _ sound_start reached
  have none := (of_inserts reached).1
  have accounted := sound.accounted
  rw [none, start, List.nil_append] at accounted
  exact (drainLoop_spec sound.valid.heaped rfl).1.trans (sound.waiting.trans accounted.symm)

theorem drainsInOrder_of_apart (small : N ≤ 64)
    (reached : run step start (order.map ReadyOp.insert) = some log)
    (apart : ∀ a ∈ order, ∀ b ∈ order, a.descIdx.toNat < N → b.descIdx.toNat < N →
      a.sortKey = b.sortKey → a.descIdx = b.descIdx) : log.DrainsInOrder := by
  have sound := run_invariant (sound_step small) start log _ sound_start reached
  have whole := drain_perm_accepted small reached
  rcases drainLoop_spec sound.valid.heaped rfl with ⟨entries, sorted⟩
  have inside : ∀ job ∈ log.set.drain, job ∈ order ∧ job.descIdx.toNat < N := by
    intro job member
    have known := (of_inserts reached).2.2 job (whole.mem_iff.mp member)
    rw [start, or_iff_right List.not_mem_nil] at known
    exact ⟨known, sound.valid.inside job (entries.mem_iff.mp member)⟩
  have once : log.set.drain.Pairwise fun x y => x.descIdx ≠ y.descIdx :=
    List.pairwise_map.mp ((entries.map ActiveJob.descIdx).nodup_iff.mpr sound.valid.distinct)
  refine ⟨whole, (sorted.and once).imp_of_mem ?_⟩
  intro x y left right both
  rcases UInt32.lt_or_eq_of_le both.1 with before | tie
  · exact Or.inl before
  · have same := apart x (inside x left).1 y (inside y right).1 (inside x left).2
      (inside y right).2 tie
    exact absurd same both.2

theorem precedes_both {jobs : List ActiveJob} (left : a ∈ jobs) (right : b ∈ jobs) (differ : a ≠ b)
    (ordered : jobs.Pairwise Precedes) (exchanged : (jobs.map (Equiv.swap a b)).Pairwise Precedes) :
    a.Precedes b ∧ b.Precedes a := by
  rcases List.getElem_of_mem left with ⟨i, within, atI⟩
  rcases List.getElem_of_mem right with ⟨j, within', atJ⟩
  rw [List.pairwise_map] at exchanged
  have places : i ≠ j := by
    rintro rfl
    exact differ (atI.symm.trans atJ)
  rcases Nat.lt_or_gt_of_ne places with before | after
  · have direct := List.pairwise_iff_getElem.mp ordered i j within within' before
    have swapped := List.pairwise_iff_getElem.mp exchanged i j within within' before
    rw [atI, atJ] at direct swapped
    rw [Equiv.swap_apply_left, Equiv.swap_apply_right] at swapped
    exact ⟨direct, swapped⟩
  · have direct := List.pairwise_iff_getElem.mp ordered j i within' within after
    have swapped := List.pairwise_iff_getElem.mp exchanged j i within' within after
    rw [atI, atJ] at direct swapped
    rw [Equiv.swap_apply_left, Equiv.swap_apply_right] at swapped
    exact ⟨swapped, direct⟩

theorem descIdx_eq_of_precedes (tie : a.sortKey = b.sortKey) (first : a.Precedes b)
    (second : b.Precedes a) : a.descIdx = b.descIdx := by
  have up : a.descIdx ≤ b.descIdx := by
    rcases first with less | ⟨_, le⟩
    · rw [tie] at less
      exact absurd less (UInt32.lt_irrefl _)
    · exact le
  have down : b.descIdx ≤ a.descIdx := by
    rcases second with less | ⟨_, le⟩
    · rw [tie] at less
      exact absurd less (UInt32.lt_irrefl _)
    · exact le
  exact UInt8.le_antisymm up down

theorem inserts_two (two : FirstTwo N a b)
    (reached : run step start ((a :: b :: order).map ReadyOp.insert) = some log) :
    ∃ mid : ReadyLog N, mid.set = (new.pushed a).pushed b ∧ mid.accepted = [b, a] ∧
      run step mid (order.map ReadyOp.insert) = some log := by
  rcases two.inserts with ⟨first, second⟩
  have fresh : b.descIdx ∉ [a].map ActiveJob.descIdx := by simpa using two.apart.symm
  have one : step start (.insert a) = some (⟨new.pushed a, [a], [a], []⟩ : ReadyLog N) := by
    simp [step, start, first]
  have other : step ⟨new.pushed a, [a], [a], []⟩ (.insert b) =
      some (⟨(new.pushed a).pushed b, [b, a], [b, a], []⟩ : ReadyLog N) := by
    simp only [step, second, fresh, not_false_eq_true, and_self, if_true]
  refine ⟨⟨(new.pushed a).pushed b, [b, a], [b, a], []⟩, rfl, rfl, ?_⟩
  rw [← reached, List.map_cons, List.map_cons]
  simp only [run, one, other, Option.bind_eq_bind, Option.bind_some]

/-- Whatever follows them, two jobs of one deadline that are inserted first come out of order for
one of the two ways to insert them. -/
theorem tie_breaks (small : N ≤ 64) (tie : a.sortKey = b.sortKey) (two : FirstTwo N a b)
    (reached : run step start ((a :: b :: order).map ReadyOp.insert) = some log)
    (reached' : run step start ((b :: a :: order).map ReadyOp.insert) = some log') :
    ¬ (log.DrainsInOrder ∧ log'.DrainsInOrder) := by
  rintro ⟨first, second⟩
  rcases inserts_two two reached with ⟨mid, set, accepted, rest⟩
  rcases inserts_two two.symm reached' with ⟨mid', set', _, rest'⟩
  have twin : Twin a b log.set log'.set := by
    apply twin_of_inserts tie _ rest rest'
    rw [set, set']
    exact two.twin small tie
  have exchanged := second.ordered
  rw [drain, twin.renamed.len, twin.renamed.drainLoop (key_swap tie)] at exchanged
  have held : [b, a] ⊆ log.set.drain := by
    rw [← accepted]
    exact fun job member => first.whole.mem_iff.mpr ((of_inserts rest).2.1 member)
  have differ : a ≠ b := fun same => two.apart (congrArg _ same)
  rcases precedes_both (held (by simp)) (held (by simp)) differ first.ordered exchanged with
    ⟨up, down⟩
  exact two.apart (descIdx_eq_of_precedes tie up down)

/-- A set of jobs comes out in the order of the pairs, whatever order it went in, exactly if no
two of its jobs share a deadline. -/
theorem drains_in_order_iff (small : N ≤ 64) (jobs : List ActiveJob) :
    (∀ order : List ActiveJob, order.Perm jobs → ∀ log : ReadyLog N,
        run step start (order.map ReadyOp.insert) = some log → log.DrainsInOrder) ↔
      ∀ a ∈ jobs, ∀ b ∈ jobs, a.descIdx.toNat < N → b.descIdx.toNat < N →
        a.sortKey = b.sortKey → a.descIdx = b.descIdx := by
  constructor
  · intro all a left b right fits fits' tie
    by_contra apart
    have differ : b ≠ a := fun same => apart (congrArg _ same.symm)
    have others : (a :: b :: (jobs.erase a).erase b).Perm jobs := by
      have later : b ∈ jobs.erase a := (List.mem_erase_of_ne differ).mpr right
      exact ((List.perm_cons_erase later).symm.cons a).trans (List.perm_cons_erase left).symm
    rcases inserts_reach (a :: b :: (jobs.erase a).erase b) start with ⟨log, reached⟩
    rcases inserts_reach (b :: a :: (jobs.erase a).erase b) start with ⟨log', reached'⟩
    apply tie_breaks small tie ⟨apart, fits, fits'⟩ reached reached'
    exact ⟨all _ others log reached, all _ ((List.Perm.swap a b _).trans others) log' reached'⟩
  · intro apart order same log reached
    apply drainsInOrder_of_apart small reached
    intro a left b right
    exact apart a (same.mem_iff.mp left) b (same.mem_iff.mp right)

theorem drains_in_order_three : ∃ log : ReadyLog 64,
    run step start ([⟨30, 0⟩, ⟨10, 1⟩, ⟨20, 2⟩].map ReadyOp.insert) = some log ∧
      log.DrainsInOrder := by
  rcases inserts_reach [⟨30, 0⟩, ⟨10, 1⟩, ⟨20, 2⟩] (start : ReadyLog 64) with ⟨log, reached⟩
  refine ⟨log, reached, ?_⟩
  exact (drains_in_order_iff (by decide) [⟨30, 0⟩, ⟨10, 1⟩, ⟨20, 2⟩]).mpr (by decide) _
    (List.Perm.refl _) log reached

/-- Three jobs of one deadline, inserted in registration order. -/
def tied : List ActiveJob := [⟨7, 0⟩, ⟨7, 1⟩, ⟨7, 2⟩]

theorem drains_in_order_fails : ∃ log : ReadyLog 64,
    run step start (tied.map ReadyOp.insert) = some log ∧
      log.set.drain = [⟨7, 0⟩, ⟨7, 2⟩, ⟨7, 1⟩] ∧ ¬ log.DrainsInOrder := by
  have ends : (run step (start : ReadyLog 64) (tied.map ReadyOp.insert)).any fun log =>
      log.set.drain = [⟨7, 0⟩, ⟨7, 2⟩, ⟨7, 1⟩] := by decide +kernel
  rcases (Option.any_eq_true _ _).mp ends with ⟨log, reached, shape⟩
  have drained := of_decide_eq_true shape
  refine ⟨log, reached, drained, fun inOrder => ?_⟩
  have ordered := inOrder.ordered
  rw [drained] at ordered
  revert ordered
  decide

end ReadyLog

end EdfReadySet

end NanoRos
