import NanoRos.Lib.Mask
import NanoRos.Lib.MinHeap
import NanoRos.Lib.Runs

/-! The ready set of the earliest-deadline-first scheduler: a heap on the sort keys, and a bitmap of
the entries in it. -/

namespace NanoRos

structure ActiveJob where
  sortKey : UInt32
  descIdx : UInt8
  deriving DecidableEq

def ActiveJob.key (job : ActiveJob) : Nat := job.sortKey.toNat

structure Overflow where
  deriving DecidableEq

/-- `heap` stands for the array of `N` entries: no slot from `N` on is ever used. -/
structure EdfReadySet (N : Nat) where
  heap : Nat → ActiveJob
  len : Nat
  present : Mask 64

namespace EdfReadySet

variable {N : Nat}

def new : EdfReadySet N := ⟨fun _ => ⟨0, 0⟩, 0, 0⟩

def siftUp (s : EdfReadySet N) (i : Nat) : EdfReadySet N :=
  { s with heap := MinHeap.siftUp ActiveJob.key s.heap i }

def siftDown (s : EdfReadySet N) (i : Nat) : EdfReadySet N :=
  { s with heap := MinHeap.siftDown ActiveJob.key s.len s.heap i }

def insert (s : EdfReadySet N) (job : ActiveJob) : Except Overflow Unit × EdfReadySet N :=
  let idx := job.descIdx.toNat
  if N ≤ idx ∨ N ≤ s.len then (.error ⟨⟩, s)
  else if s.present.has idx then (.ok (), s)
  else
    let grown : EdfReadySet N :=
      { heap := Function.update s.heap s.len job
        len := s.len + 1
        present := s.present.insert idx }
    (.ok (), grown.siftUp s.len)

def popNext (s : EdfReadySet N) : Option ActiveJob × EdfReadySet N :=
  if s.len = 0 then (none, s)
  else
    let top := s.heap 0
    let shrunk : EdfReadySet N := { s with len := s.len - 1 }
    let sifted :=
      if 0 < shrunk.len then
        { shrunk with heap := Function.update s.heap 0 (s.heap shrunk.len) }.siftDown 0
      else shrunk
    (some top, { sifted with present := s.present.erase top.descIdx.toNat })

/-- `heap[0..len]` -/
def entries (s : EdfReadySet N) : List ActiveJob := MinHeap.entries s.heap s.len

structure Valid (s : EdfReadySet N) : Prop where
  fits : s.len ≤ N
  heaped : MinHeap.Heaped ActiveJob.key s.heap s.len
  distinct : (s.entries.map ActiveJob.descIdx).Nodup
  present : ∀ i, s.present.has i = true ↔ ∃ job ∈ s.entries, job.descIdx.toNat = i
  inside : ∀ job ∈ s.entries, job.descIdx.toNat < N

theorem length_entries (s : EdfReadySet N) : s.entries.length = s.len := by
  rw [entries, MinHeap.entries, List.length_map, List.length_range]

theorem valid_new : (new : EdfReadySet N).Valid where
  fits := Nat.zero_le N
  heaped i _ inside := absurd inside (Nat.not_lt_zero i)
  distinct := List.nodup_nil
  present i := by
    constructor
    · intro has
      rw [new, Mask.has, BitVec.ofNat_eq_ofNat, BitVec.getLsbD_zero] at has
      cases has
    · rintro ⟨_, member, _⟩
      cases member
  inside _ member := by cases member

/-! ### Inserting -/

variable {s : EdfReadySet N} {job : ActiveJob}

theorem insert_cases (s : EdfReadySet N) (job : ActiveJob) :
    ((N ≤ job.descIdx.toNat ∨ N ≤ s.len) ∧ s.insert job = (.error ⟨⟩, s)) ∨
      (job.descIdx.toNat < N ∧ s.len < N ∧ s.present.has job.descIdx.toNat = true ∧
        s.insert job = (.ok (), s)) ∨
      (job.descIdx.toNat < N ∧ s.len < N ∧ s.present.has job.descIdx.toNat = false ∧
        s.insert job = (.ok (),
          { heap := MinHeap.siftUp ActiveJob.key (Function.update s.heap s.len job) s.len
            len := s.len + 1
            present := s.present.insert job.descIdx.toNat })) := by
  rw [insert]
  dsimp only
  by_cases refused : N ≤ job.descIdx.toNat ∨ N ≤ s.len
  · exact .inl ⟨refused, if_pos refused⟩
  · have room : job.descIdx.toNat < N ∧ s.len < N := by omega
    rw [if_neg refused]
    by_cases there : s.present.has job.descIdx.toNat = true
    · exact .inr (.inl ⟨room.1, room.2, there, if_pos there⟩)
    · exact .inr (.inr ⟨room.1, room.2, Bool.eq_false_iff.mpr there, if_neg there⟩)

/-- The set one entry larger. -/
structure Grown (s next : EdfReadySet N) (job : ActiveJob) : Prop where
  len : next.len = s.len + 1
  heaped : MinHeap.Heaped ActiveJob.key next.heap next.len
  entries : next.entries.Perm (job :: s.entries)
  present : next.present = s.present.insert job.descIdx.toNat

theorem grown_siftUp (heaped : MinHeap.Heaped ActiveJob.key s.heap s.len) :
    Grown s
      { heap := MinHeap.siftUp ActiveJob.key (Function.update s.heap s.len job) s.len
        len := s.len + 1
        present := s.present.insert job.descIdx.toNat } job where
  len := rfl
  heaped := MinHeap.siftUp_heaped _ (MinHeap.heapedAbove_push _ heaped job)
  entries := by
    apply (MinHeap.siftUp_entries _ _ (Nat.lt_succ_self _)).trans
    rw [MinHeap.entries_succ, MinHeap.entries_update, Function.update_self]
    exact List.perm_append_singleton _ _
  present := rfl

theorem valid_grown {next : EdfReadySet N} (small : N ≤ 64) (valid : s.Valid)
    (grown : Grown s next job) (idx : job.descIdx.toNat < N) (room : s.len < N)
    (absent : s.present.has job.descIdx.toNat = false) : next.Valid where
  fits := grown.len ▸ room
  heaped := grown.heaped
  distinct := by
    have indices := grown.entries.map ActiveJob.descIdx
    rw [indices.nodup_iff, List.map_cons, List.nodup_cons]
    refine ⟨fun member => ?_, valid.distinct⟩
    rcases List.mem_map.mp member with ⟨other, inside, same⟩
    have there := (valid.present job.descIdx.toNat).mpr ⟨other, inside, congrArg _ same⟩
    rw [absent] at there
    cases there
  present i := by
    rw [grown.present, Mask.has_insert, Bool.or_eq_true, valid.present, Bool.and_eq_true,
      decide_eq_true_iff, decide_eq_true_iff]
    have within : job.descIdx.toNat < 64 := idx.trans_le small
    constructor
    · rintro (⟨other, member, same⟩ | ⟨_, same⟩)
      · exact ⟨other, grown.entries.mem_iff.mpr (List.mem_cons_of_mem _ member), same⟩
      · exact ⟨job, grown.entries.mem_iff.mpr List.mem_cons_self, same⟩
    · rintro ⟨other, member, same⟩
      rcases List.mem_cons.mp (grown.entries.mem_iff.mp member) with rfl | before
      · exact .inr ⟨within, same⟩
      · exact .inl ⟨other, before, same⟩
  inside other member := by
    rcases List.mem_cons.mp (grown.entries.mem_iff.mp member) with rfl | before
    · exact idx
    · exact valid.inside other before

/-! ### Popping -/

/-- The set without its root. -/
structure Popped (s next : EdfReadySet N) (job : ActiveJob) : Prop where
  len : s.len = next.len + 1
  heaped : MinHeap.Heaped ActiveJob.key next.heap next.len
  entries : s.entries.Perm (job :: next.entries)
  present : next.present = s.present.erase job.descIdx.toNat

theorem popNext_none_iff (s : EdfReadySet N) : (s.popNext).1 = none ↔ s.entries = [] := by
  rw [← List.length_eq_zero_iff, length_entries, popNext]
  by_cases empty : s.len = 0
  · rw [if_pos empty]
    exact iff_of_true rfl empty
  · rw [if_neg empty]
    exact iff_of_false nofun empty

theorem popNext_some {top : ActiveJob} {next : EdfReadySet N}
    (heaped : MinHeap.Heaped ActiveJob.key s.heap s.len) (popped : s.popNext = (some top, next)) :
    Popped s next top ∧ ∀ other ∈ s.entries, top.sortKey ≤ other.sortKey := by
  rw [popNext] at popped
  by_cases empty : s.len = 0
  · rw [if_pos empty] at popped
    cases popped
  rw [if_neg empty] at popped
  have least : ∀ other ∈ s.entries, (s.heap 0).sortKey ≤ other.sortKey := by
    intro other member
    rcases MinHeap.mem_entries.mp member with ⟨i, inside, rfl⟩
    exact UInt32.le_iff_toNat_le.mpr (MinHeap.root_le ActiveJob.key heaped i inside)
  have shape : ∃ n, s.len = n + 1 := Nat.exists_eq_succ_of_ne_zero empty
  rcases shape with ⟨n, shape⟩
  rw [shape] at heaped popped
  simp only [Nat.add_sub_cancel] at popped
  rcases Nat.eq_zero_or_pos n with rfl | more
  · rw [if_neg (Nat.lt_irrefl 0)] at popped
    cases popped
    refine ⟨⟨shape, fun i _ inside => absurd inside (Nat.not_lt_zero i), ?_, rfl⟩, least⟩
    rw [entries, shape]
    rfl
  · rw [if_pos more] at popped
    cases popped
    refine ⟨⟨shape, ?_, ?_, rfl⟩, least⟩
    · exact MinHeap.siftDown_heaped _ (MinHeap.heapedBelow_replace _ heaped _)
    · rcases Nat.exists_eq_succ_of_ne_zero more.ne' with ⟨m, rfl⟩
      rw [entries, shape]
      apply (MinHeap.entries_replace s.heap m).trans
      exact (MinHeap.siftDown_entries _ _ (Nat.succ_pos m)).symm.cons _

theorem valid_popped {next : EdfReadySet N} (valid : s.Valid) (popped : Popped s next job) :
    next.Valid := by
  have apart : ∀ other ∈ next.entries, other.descIdx ≠ job.descIdx := by
    have once := (popped.entries.map ActiveJob.descIdx).nodup_iff.mp valid.distinct
    intro other member same
    apply (List.nodup_cons.mp once).1
    rw [← same]
    exact List.mem_map_of_mem member
  refine ⟨?_, popped.heaped, ?_, fun i => ?_, fun other member => ?_⟩
  · have fits := valid.fits
    rw [popped.len] at fits
    exact (Nat.le_succ _).trans fits
  · have once := (popped.entries.map ActiveJob.descIdx).nodup_iff.mp valid.distinct
    exact (List.nodup_cons.mp once).2
  · rw [popped.present, Mask.has_erase, Bool.and_eq_true, valid.present, Bool.not_eq_true',
      decide_eq_false_iff_not]
    constructor
    · rintro ⟨⟨other, member, same⟩, differs⟩
      rcases List.mem_cons.mp (popped.entries.mem_iff.mp member) with rfl | after
      · exact absurd same differs
      · exact ⟨other, after, same⟩
    · rintro ⟨other, member, same⟩
      refine ⟨⟨other, popped.entries.mem_iff.mpr (List.mem_cons_of_mem _ member), same⟩, ?_⟩
      intro equal
      exact apart other member (UInt8.toNat_inj.mp (same.trans equal.symm))
  · exact valid.inside other (popped.entries.mem_iff.mpr (List.mem_cons_of_mem _ member))

/-! ### Runs -/

theorem valid_insert (small : N ≤ 64) (valid : s.Valid) (job : ActiveJob) :
    (s.insert job).2.Valid := by
  rcases insert_cases s job with ⟨_, result⟩ | ⟨_, _, _, result⟩ | ⟨idx, room, absent, result⟩
  · rw [result]
    exact valid
  · rw [result]
    exact valid
  · rw [result]
    exact valid_grown small valid (grown_siftUp valid.heaped) idx room absent

theorem popNext_eq_none (empty : (s.popNext).1 = none) : (s.popNext).2 = s := by
  rw [popNext] at empty ⊢
  by_cases none : s.len = 0
  · rw [if_pos none]
  · rw [if_neg none] at empty
    cases empty

inductive ReadyOp where
  | insert (job : ActiveJob)
  | popNext

/-- The set, and what its callers have seen of it: the jobs that are waiting, those that were
accepted when none of their index was waiting, and those that were popped. -/
structure ReadyLog (N : Nat) where
  set : EdfReadySet N
  waiting : List ActiveJob
  accepted : List ActiveJob
  popped : List ActiveJob

namespace ReadyLog

def start : ReadyLog N := ⟨new, [], [], []⟩

def step (log : ReadyLog N) : ReadyOp → Option (ReadyLog N)
  | .insert job =>
    let result := log.set.insert job
    let first := result.1 = .ok () ∧ job.descIdx ∉ log.waiting.map ActiveJob.descIdx
    some { log with
      set := result.2
      waiting := if first then job :: log.waiting else log.waiting
      accepted := if first then job :: log.accepted else log.accepted }
  | .popNext =>
    let result := log.set.popNext
    match result.1 with
    | none => some { log with set := result.2 }
    | some job =>
      some { log with
        set := result.2
        waiting := log.waiting.erase job
        popped := job :: log.popped }

/-- The heap and the bitmap hold exactly what is waiting, and every accepted job has been popped
or is waiting. -/
structure Sound (log : ReadyLog N) : Prop where
  valid : log.set.Valid
  waiting : log.set.entries.Perm log.waiting
  accounted : log.accepted.Perm (log.popped ++ log.waiting)

theorem sound_start : (start : ReadyLog N).Sound := ⟨valid_new, List.Perm.nil, List.Perm.nil⟩

theorem absent_iff {log : ReadyLog N} (sound : log.Sound) (job : ActiveJob) :
    job.descIdx ∉ log.waiting.map ActiveJob.descIdx ↔
      log.set.present.has job.descIdx.toNat = false := by
  rw [← Bool.not_eq_true, sound.valid.present, not_iff_not, List.mem_map]
  constructor
  · rintro ⟨other, member, same⟩
    exact ⟨other, sound.waiting.mem_iff.mpr member, congrArg _ same⟩
  · rintro ⟨other, member, same⟩
    exact ⟨other, sound.waiting.mem_iff.mp member, UInt8.toNat_inj.mp same⟩

theorem sound_insert {log next : ReadyLog N} (small : N ≤ 64) (sound : log.Sound)
    {job : ActiveJob} (stepped : step log (.insert job) = some next) : next.Sound := by
  have valid := valid_insert small sound.valid job
  cases stepped
  rcases insert_cases log.set job with ⟨_, result⟩ | ⟨_, _, there, result⟩ |
    ⟨idx, room, absent, result⟩
  · rw [result] at valid ⊢
    have refused (p : Prop) : ¬ ((Except.error ⟨⟩ : Except Overflow Unit) = .ok () ∧ p) :=
      fun first => nomatch first.1
    rw [if_neg (refused _), if_neg (refused _)]
    exact ⟨valid, sound.waiting, sound.accounted⟩
  · have known : ¬ job.descIdx ∉ log.waiting.map ActiveJob.descIdx := by
      rw [absent_iff sound, there]
      decide
    rw [result] at valid ⊢
    rw [if_neg fun first => known first.2, if_neg fun first => known first.2]
    exact ⟨valid, sound.waiting, sound.accounted⟩
  · have first := (absent_iff sound job).mpr absent
    rw [result] at valid ⊢
    rw [if_pos ⟨rfl, first⟩, if_pos ⟨rfl, first⟩]
    refine ⟨valid, ?_, ?_⟩
    · exact (grown_siftUp sound.valid.heaped).entries.trans (sound.waiting.cons job)
    · exact (sound.accounted.cons job).trans List.perm_middle.symm

/-- A pop takes a job of least key from those that wait, and finds none only if none waits. -/
structure PopsLeast (log : ReadyLog N) : Prop where
  none_iff : (log.set.popNext).1 = none ↔ log.waiting = []
  least : ∀ job, (log.set.popNext).1 = some job → job ∈ log.waiting ∧
    (∀ other ∈ log.waiting, job.sortKey ≤ other.sortKey) ∧
    log.set.entries.Perm (job :: (log.set.popNext).2.entries)

theorem popsLeast {log : ReadyLog N} (sound : log.Sound) : log.PopsLeast where
  none_iff := by
    rw [popNext_none_iff]
    constructor
    · intro empty
      have nothing := sound.waiting
      rw [empty] at nothing
      exact nothing.symm.eq_nil
    · intro empty
      have nothing := sound.waiting
      rw [empty] at nothing
      exact nothing.eq_nil
  least job found := by
    rcases popNext_some sound.valid.heaped (Prod.ext found rfl) with ⟨popped, least⟩
    refine ⟨?_, fun other member => ?_, popped.entries⟩
    · exact sound.waiting.mem_iff.mp (popped.entries.mem_iff.mpr List.mem_cons_self)
    · exact least other (sound.waiting.mem_iff.mpr member)

theorem sound_popNext {log next : ReadyLog N} (sound : log.Sound)
    (stepped : step log .popNext = some next) : next.Sound := by
  rw [step] at stepped
  cases found : (log.set.popNext).1 with
  | none =>
    rw [found, popNext_eq_none found] at stepped
    cases stepped
    exact sound
  | some job =>
    rw [found] at stepped
    cases stepped
    have pop := popNext_some sound.valid.heaped (Prod.ext found rfl)
    have member := ((popsLeast sound).least job found).1
    refine ⟨valid_popped sound.valid pop.1, ?_, ?_⟩
    · have moved := pop.1.entries.symm.trans sound.waiting
      exact (List.cons_perm_iff_perm_erase.mp moved).2
    · apply sound.accounted.trans
      exact ((List.perm_cons_erase member).append_left _).trans List.perm_middle

theorem sound_step (small : N ≤ 64) (log : ReadyLog N) (op : ReadyOp) (next : ReadyLog N)
    (sound : log.Sound) (stepped : step log op = some next) : next.Sound := by
  cases op with
  | insert job => exact sound_insert small sound stepped
  | popNext => exact sound_popNext sound stepped

/-- The ready set is a queue by deadline, from the empty set on. -/
theorem earliest_deadline_first (small : N ≤ 64) (ops : List ReadyOp) (last : ReadyLog N)
    (reached : run step start ops = some last) : last.Sound ∧ last.PopsLeast := by
  have sound := run_invariant (sound_step small) start last ops sound_start reached
  exact ⟨sound, popsLeast sound⟩

/-- Two jobs of one index and an earlier one, on a set of two. -/
def burst : List ReadyOp :=
  [.insert ⟨50, 1⟩, .insert ⟨20, 1⟩, .insert ⟨30, 0⟩, .popNext]

theorem earliest_deadline_first_burst : ∃ last, run step (start : ReadyLog 2) burst = some last ∧
    last.popped = [⟨30, 0⟩] ∧ last.waiting = [⟨50, 1⟩] ∧ last.Sound ∧ last.PopsLeast := by
  have ends : (run step (start : ReadyLog 2) burst).any fun last =>
      last.popped = [⟨30, 0⟩] ∧ last.waiting = [⟨50, 1⟩] := by decide +kernel
  rcases (Option.any_eq_true _ _).mp ends with ⟨last, reached, shape⟩
  have popped := of_decide_eq_true shape
  exact ⟨last, reached, popped.1, popped.2, earliest_deadline_first (by decide) burst last reached⟩

/-- An index that waits is inserted again without effect exactly while the set has room. -/
theorem insert_idempotent_iff (small : N ≤ 64) (ops : List ReadyOp) (last : ReadyLog N)
    (reached : run step start ops = some last) (job : ActiveJob)
    (waits : job.descIdx ∈ last.set.entries.map ActiveJob.descIdx) :
    last.set.insert job = (.ok (), last.set) ↔ last.set.len < N := by
  have sound := run_invariant (sound_step small) start last ops sound_start reached
  rcases List.mem_map.mp waits with ⟨other, member, same⟩
  have there := (sound.valid.present job.descIdx.toNat).mpr ⟨other, member, congrArg _ same⟩
  have inside : job.descIdx.toNat < N := same ▸ sound.valid.inside other member
  constructor
  · intro result
    by_contra full
    rw [insert, if_pos (.inr (Nat.not_lt.mp full))] at result
    cases result
  · intro room
    rcases insert_cases last.set job with ⟨refused, _⟩ | ⟨_, _, _, result⟩ | ⟨_, _, absent, _⟩
    · omega
    · exact result
    · rw [there] at absent
      cases absent

theorem insert_idempotent_with_room : ∃ last,
    run step (start : ReadyLog 2) [.insert ⟨50, 1⟩] = some last ∧
      last.set.insert ⟨20, 1⟩ = (.ok (), last.set) := by
  have reached : run step (start : ReadyLog 2) [.insert ⟨50, 1⟩] = some _ := rfl
  refine ⟨_, reached, ?_⟩
  exact (insert_idempotent_iff (by decide) _ _ reached ⟨20, 1⟩ (by decide +kernel)).mpr
    (by decide)

/-- A set of one entry that holds the job, and refuses it. -/
theorem insert_idempotent_fails : ∃ last,
    run step (start : ReadyLog 1) [.insert ⟨50, 0⟩] = some last ∧
      (0 : UInt8) ∈ last.set.entries.map ActiveJob.descIdx ∧
      last.set.insert ⟨50, 0⟩ = (.error ⟨⟩, last.set) ∧
      last.set.insert ⟨50, 0⟩ ≠ (.ok (), last.set) := by
  refine ⟨_, rfl, by decide +kernel, rfl, ?_⟩
  intro result
  cases congrArg Prod.fst result

end ReadyLog

end EdfReadySet

end NanoRos
