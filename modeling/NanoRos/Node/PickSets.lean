import NanoRos.Node.RankedFifoSet

/-! The ready sets of a pass: a heap of deadlines for each priority bucket, and one set of levels
for the slots without a deadline. -/

namespace NanoRos

open Function

def Priority.index : Priority → Nat
  | .critical => 0
  | .normal => 1
  | .bestEffort => 2

/-- How a slot waits: by its deadline, or by the rank of its node. -/
inductive Urgency where
  | edf (deadlineUs : UInt32)
  | fifo (rank : UInt8)
  deriving DecidableEq

structure QueuedSlot where
  bucket : Priority
  urgency : Urgency
  slot : Nat
  deriving DecidableEq

namespace QueuedSlot

def sortKey (q : QueuedSlot) : UInt32 :=
  match q.urgency with
  | .edf deadlineUs => deadlineUs
  | .fifo _ => UInt32.ofNat q.slot

def job (q : QueuedSlot) : ActiveJob := ⟨q.sortKey, UInt8.ofNat q.slot⟩

def isEdf (q : QueuedSlot) : Bool :=
  match q.urgency with
  | .edf _ => true
  | .fifo _ => false

def level (q : QueuedSlot) : UInt8 :=
  match q.urgency with
  | .edf _ => 0
  | .fifo rank => q.bucket.dispatchLevel rank

end QueuedSlot

def exceptSlot (queued : List QueuedSlot) (slot : Nat) : List QueuedSlot :=
  queued.filter fun q => decide (q.slot ≠ slot)

/-- The `BucketedEdfSet` and the `RankedFifoSet` of a pass, for 64 slots each. -/
structure ReadySets where
  edf : Priority → EdfReadySet 64
  fifo : RankedFifoSet 64

namespace ReadySets

def new : ReadySets := ⟨fun _ => EdfReadySet.new, RankedFifoSet.new⟩

def insert (sets : ReadySets) (q : QueuedSlot) : ReadySets :=
  if q.isEdf then
    { sets with edf := update sets.edf q.bucket ((sets.edf q.bucket).insert q.job).2 }
  else { sets with fifo := (sets.fifo.insertAt q.level q.job).2 }

/-- The loop over the buckets, from the most urgent one that is left. -/
def pickFrom : List Priority → ReadySets → Option ActiveJob × ReadySets
  | [], sets => (none, sets)
  | bucket :: rest, sets =>
    let popped := (sets.edf bucket).popNext
    let sets := { sets with edf := update sets.edf bucket popped.2 }
    match popped.1 with
    | some job => (some job, sets)
    | none =>
      let popped := sets.fifo.popIn bucket.levelRange.1 bucket.levelRange.2
      let sets := { sets with fifo := popped.2 }
      match popped.1 with
      | some job => (some job, sets)
      | none => pickFrom rest sets

def pick (sets : ReadySets) : Option ActiveJob × ReadySets :=
  pickFrom [.critical, .normal, .bestEffort] sets

end ReadySets

/-! ### What the two kinds of sets hold -/

def rankedPairs (queued : List QueuedSlot) : Finset (ℕ ×ₗ ℕ) :=
  ((queued.filter fun q => !q.isEdf).map fun q => toLex (q.level.toNat, q.slot)).toFinset

theorem mem_rankedPairs {queued : List QueuedSlot} {l i : Nat} :
    toLex (l, i) ∈ rankedPairs queued ↔
      ∃ q ∈ queued, q.isEdf = false ∧ q.level.toNat = l ∧ q.slot = i := by
  simp only [rankedPairs, List.mem_toFinset, List.mem_map, List.mem_filter, Bool.not_eq_true',
    toLex_inj, Prod.mk.injEq, and_assoc]

structure Represents (sets : ReadySets) (queued : List QueuedSlot) : Prop where
  inside : ∀ q ∈ queued, q.slot < 64
  once : (queued.map QueuedSlot.slot).Nodup
  valid : ∀ bucket, (sets.edf bucket).Valid
  deadlines : ∀ bucket job, job ∈ (sets.edf bucket).entries ↔
    ∃ q ∈ queued, q.bucket = bucket ∧ q.isEdf = true ∧ q.job = job
  marked : sets.fifo.Marked
  ranks : sets.fifo.Holds (rankedPairs queued)

theorem represents_new : Represents ReadySets.new [] where
  inside _ member := by cases member
  once := List.nodup_nil
  valid _ := EdfReadySet.valid_new
  deadlines bucket job := by
    simp [ReadySets.new, EdfReadySet.new, EdfReadySet.entries, MinHeap.entries]
  marked := RankedFifoSet.marked_new
  ranks l i := by simp [ReadySets.new, RankedFifoSet.new, FifoReadySet.new, rankedPairs]

theorem QueuedSlot.toNat_descIdx {q : QueuedSlot} (inside : q.slot < 64) :
    q.job.descIdx.toNat = q.slot :=
  UInt8.toNat_ofNat_of_lt' (inside.trans (by decide))

theorem Priority.dispatchLevel_lt (priority : Priority) (rank : UInt8) :
    (priority.dispatchLevel rank).toNat < dispatchLevels := by
  have within := ((mem_levelRange_iff priority priority rank).mpr rfl).2
  have high : priority.levelRange.2.toNat ≤ dispatchLevels := by
    cases priority <;> decide
  exact (UInt8.lt_iff_toNat_lt.mp within).trans_le high

theorem EdfReadySet.room_of_absent {s : EdfReadySet 64} (valid : s.Valid) {idx : Nat}
    (inside : idx < 64) (absent : ∀ job ∈ s.entries, job.descIdx.toNat ≠ idx) : s.len < 64 := by
  have distinct : (s.entries.map fun job => job.descIdx.toNat).Nodup := by
    have injective : Injective UInt8.toNat := fun a b same => UInt8.toNat_inj.mp same
    have toNat_nodup := valid.distinct.map injective
    rwa [List.map_map] at toNat_nodup
  have fresh : (idx :: s.entries.map fun job => job.descIdx.toNat).Nodup := by
    rw [List.nodup_cons]
    refine ⟨fun member => ?_, distinct⟩
    rcases List.mem_map.mp member with ⟨job, there, same⟩
    exact absent job there same
  have below : (idx :: s.entries.map fun job => job.descIdx.toNat) ⊆ List.range 64 := by
    intro i member
    rw [List.mem_range]
    rcases List.mem_cons.mp member with rfl | member
    · exact inside
    · rcases List.mem_map.mp member with ⟨job, there, rfl⟩
      exact valid.inside job there
  have fewer := (fresh.subperm below).length_le
  rw [List.length_cons, List.length_map, length_entries, List.length_range] at fewer
  omega

theorem EdfReadySet.Popped.mem_iff {s next : EdfReadySet 64} {top : ActiveJob} (valid : s.Valid)
    (popped : Popped s next top) (job : ActiveJob) :
    job ∈ next.entries ↔ job ∈ s.entries ∧ job.descIdx ≠ top.descIdx := by
  have once := (popped.entries.map ActiveJob.descIdx).nodup_iff.mp valid.distinct
  rw [List.map_cons, List.nodup_cons] at once
  rw [popped.entries.mem_iff, List.mem_cons]
  constructor
  · intro member
    refine ⟨.inr member, fun same => once.1 ?_⟩
    rw [← same]
    exact List.mem_map_of_mem member
  · rintro ⟨rfl | member, differs⟩
    · exact absurd rfl differs
    · exact member

/-- Nothing that is queued goes before `q`. -/
structure Foremost (queued : List QueuedSlot) (q : QueuedSlot) : Prop where
  waits : q ∈ queued
  bucket : ∀ other ∈ queued, q.bucket.index ≤ other.bucket.index
  deadline : q.isEdf = true → ∀ other ∈ queued, other.bucket = q.bucket → other.isEdf = true →
    q.sortKey ≤ other.sortKey
  ranked : q.isEdf = false → ∀ other ∈ queued, other.bucket = q.bucket → other.isEdf = false ∧
    toLex (q.level.toNat, q.slot) ≤ toLex (other.level.toNat, other.slot)

theorem mem_exceptSlot {queued : List QueuedSlot} {slot : Nat} {q : QueuedSlot} :
    q ∈ exceptSlot queued slot ↔ q ∈ queued ∧ q.slot ≠ slot := by
  rw [exceptSlot, List.mem_filter, decide_eq_true_iff]

namespace Represents

variable {sets : ReadySets} {queued : List QueuedSlot} {q : QueuedSlot}

section

variable (represents : Represents sets queued)
include represents

theorem grown (inside : q.slot < 64) (absent : q.slot ∉ queued.map QueuedSlot.slot)
    (bucket : Priority) : ((sets.edf bucket).insert q.job).2.Valid ∧
      ((sets.edf bucket).insert q.job).2.entries.Perm (q.job :: (sets.edf bucket).entries) := by
  have idx := QueuedSlot.toNat_descIdx inside
  have valid := represents.valid bucket
  have apart : ∀ job ∈ (sets.edf bucket).entries, job.descIdx.toNat ≠ q.slot := by
    intro job member same
    rcases (represents.deadlines bucket job).mp member with ⟨other, there, _, _, rfl⟩
    rw [QueuedSlot.toNat_descIdx (represents.inside other there)] at same
    exact absent (same ▸ List.mem_map_of_mem there)
  have room := EdfReadySet.room_of_absent valid inside apart
  have missing : (sets.edf bucket).present.has q.job.descIdx.toNat = false := by
    rw [← Bool.not_eq_true, valid.present]
    rintro ⟨job, member, same⟩
    exact apart job member (same.trans idx)
  refine ⟨EdfReadySet.valid_insert (by decide) valid q.job, ?_⟩
  rcases EdfReadySet.insert_cases (sets.edf bucket) q.job with ⟨refused, _⟩ | ⟨_, _, there, _⟩ |
    ⟨_, _, _, result⟩
  · omega
  · rw [missing] at there
    cases there
  · rw [result]
    exact (EdfReadySet.grown_siftUp valid.heaped).entries

theorem ranked (inside : q.slot < 64) (level : UInt8) (low : level.toNat < dispatchLevels) :
    (sets.fifo.insertAt level q.job).2.Marked ∧ (sets.fifo.insertAt level q.job).2.Holds
        (Insert.insert (toLex (level.toNat, q.slot)) (rankedPairs queued)) := by
  have idx := QueuedSlot.toNat_descIdx inside
  have sound : RankedFifoSet.RankedLog.Sound ⟨sets.fifo, rankedPairs queued⟩ :=
    ⟨represents.marked, represents.ranks⟩
  have stepped : RankedFifoSet.RankedLog.step ⟨sets.fifo, rankedPairs queued⟩
      (.insertAt level q.job) = some _ := rfl
  have next := RankedFifoSet.RankedLog.sound_insertAt (by decide) sound stepped
  have accepted := RankedFifoSet.insertAt_accepted (s := sets.fifo) low (idx.trans_lt inside)
  have holds := next.holds
  rw [if_pos (congrArg Prod.fst accepted), idx] at holds
  exact ⟨next.marked, holds⟩

theorem insert (inside : q.slot < 64) (absent : q.slot ∉ queued.map QueuedSlot.slot) :
    Represents (sets.insert q) (queued ++ [q]) := by
  have once : ((queued ++ [q]).map QueuedSlot.slot).Nodup := by
    rw [List.map_append, List.map_singleton, ← List.concat_eq_append, List.nodup_concat]
    exact ⟨absent, represents.once⟩
  have within : ∀ other ∈ queued ++ [q], other.slot < 64 := by
    intro other member
    rcases List.mem_append.mp member with before | last
    · exact represents.inside other before
    · rw [List.mem_singleton.mp last]
      exact inside
  have edf_append : ∀ bucket job,
      (∃ other ∈ queued ++ [q], other.bucket = bucket ∧ other.isEdf = true ∧ other.job = job) ↔
        job ∈ (sets.edf bucket).entries ∨ q.bucket = bucket ∧ q.isEdf = true ∧ q.job = job := by
    intro bucket job
    rw [represents.deadlines]
    simp only [List.mem_append, List.mem_singleton, or_and_right, exists_or, exists_eq_left]
  rw [ReadySets.insert]
  cases kind : q.isEdf with
  | true =>
    rw [if_pos rfl]
    refine ⟨within, once, fun bucket => ?_, fun bucket job => ?_, represents.marked, ?_⟩
    · dsimp only
      by_cases same : bucket = q.bucket
      · rw [same, update_self]
        exact (represents.grown inside absent q.bucket).1
      · rw [update_of_ne same]
        exact represents.valid bucket
    · dsimp only
      rw [edf_append]
      by_cases same : bucket = q.bucket
      · rw [same, update_self, (represents.grown inside absent q.bucket).2.mem_iff,
          List.mem_cons]
        simp only [kind, true_and, eq_comm, or_comm]
      · rw [update_of_ne same]
        simp only [Ne.symm same, false_and, or_false]
    · have unranked : rankedPairs (queued ++ [q]) = rankedPairs queued := by
        simp [rankedPairs, kind]
      rw [unranked]
      exact represents.ranks
  | false =>
    rw [if_neg (by decide)]
    have low : q.level.toNat < dispatchLevels := by
      cases urgency : q.urgency with
      | edf deadlineUs => simp [QueuedSlot.isEdf, urgency] at kind
      | fifo rank =>
        rw [QueuedSlot.level, urgency]
        exact q.bucket.dispatchLevel_lt rank
    rcases represents.ranked inside q.level low with ⟨marked, holds⟩
    refine ⟨within, once, represents.valid, fun bucket job => ?_, marked, ?_⟩
    · rw [edf_append]
      simp [kind]
    · have pairs : rankedPairs (queued ++ [q]) =
          Insert.insert (toLex (q.level.toNat, q.slot)) (rankedPairs queued) := by
        simp [rankedPairs, kind, Finset.union_comm]
      rw [pairs]
      exact holds

theorem eq_of_slot {other : QueuedSlot} (there : other ∈ queued) (member : q ∈ queued)
    (same : other.slot = q.slot) : other = q :=
  List.inj_on_of_nodup_map represents.once there member same

theorem kept (slot : Nat) : (∀ other ∈ exceptSlot queued slot, other.slot < 64) ∧
      ((exceptSlot queued slot).map QueuedSlot.slot).Nodup := by
  constructor
  · intro other member
    exact represents.inside other (mem_exceptSlot.mp member).1
  · exact represents.once.sublist (List.filter_sublist.map QueuedSlot.slot)

theorem pop_edf (member : q ∈ queued) (edf : q.isEdf = true) {next : EdfReadySet 64}
    (popped : EdfReadySet.Popped (sets.edf q.bucket) next q.job) :
    Represents { sets with edf := update sets.edf q.bucket next } (exceptSlot queued q.slot) := by
  have valid := represents.valid q.bucket
  rcases represents.kept q.slot with ⟨inside, once⟩
  refine ⟨inside, once, fun bucket => ?_, fun bucket job => ?_, represents.marked, fun l i => ?_⟩
  · dsimp only
    by_cases same : bucket = q.bucket
    · rw [same, update_self]
      exact EdfReadySet.valid_popped valid popped
    · rw [update_of_ne same]
      exact represents.valid bucket
  · dsimp only
    by_cases same : bucket = q.bucket
    · rw [same, update_self, popped.mem_iff valid, represents.deadlines]
      constructor
      · rintro ⟨⟨other, there, bucketed, timed, rfl⟩, differs⟩
        refine ⟨other, mem_exceptSlot.mpr ⟨there, fun slots => differs ?_⟩, bucketed, timed, rfl⟩
        rw [represents.eq_of_slot there member slots]
      · rintro ⟨other, there, bucketed, timed, rfl⟩
        rcases mem_exceptSlot.mp there with ⟨there, differs⟩
        refine ⟨⟨other, there, bucketed, timed, rfl⟩, fun indices => differs ?_⟩
        rw [← QueuedSlot.toNat_descIdx (represents.inside other there), indices,
          QueuedSlot.toNat_descIdx (represents.inside q member)]
    · rw [update_of_ne same, represents.deadlines]
      apply exists_congr
      intro other
      rw [mem_exceptSlot, and_assoc]
      apply and_congr_right
      intro there
      constructor
      · rintro ⟨bucketed, rest⟩
        refine ⟨fun slots => same ?_, bucketed, rest⟩
        rw [← bucketed, represents.eq_of_slot there member slots]
      · exact And.right
  · rw [← represents.ranks, mem_rankedPairs, mem_rankedPairs]
    apply exists_congr
    intro other
    rw [mem_exceptSlot, and_assoc]
    apply and_congr_right
    intro there
    constructor
    · exact And.right
    · rintro ⟨ranked, rest⟩
      refine ⟨fun slots => ?_, ranked, rest⟩
      rw [represents.eq_of_slot there member slots, edf] at ranked
      cases ranked

theorem pop_fifo (member : q ∈ queued) (fifo : q.isEdf = false) {next : RankedFifoSet 64}
    (marked : next.Marked)
    (holds : next.Holds ((rankedPairs queued).erase (toLex (q.level.toNat, q.slot)))) :
    Represents { sets with fifo := next } (exceptSlot queued q.slot) := by
  rcases represents.kept q.slot with ⟨inside, once⟩
  refine ⟨inside, once, represents.valid, fun bucket job => ?_, marked, fun l i => ?_⟩
  · rw [represents.deadlines]
    apply exists_congr
    intro other
    rw [mem_exceptSlot, and_assoc]
    apply and_congr_right
    intro there
    constructor
    · rintro ⟨bucketed, timed, rest⟩
      refine ⟨fun slots => ?_, bucketed, timed, rest⟩
      rw [represents.eq_of_slot there member slots, fifo] at timed
      cases timed
    · exact And.right
  · rw [← holds, Finset.mem_erase, mem_rankedPairs, mem_rankedPairs, ne_eq, toLex_inj,
      Prod.mk.injEq]
    constructor
    · rintro ⟨other, there, ranked, rfl, rfl⟩
      rcases mem_exceptSlot.mp there with ⟨there, differs⟩
      exact ⟨fun both => differs both.2, other, there, ranked, rfl, rfl⟩
    · rintro ⟨differs, other, there, ranked, rfl, rfl⟩
      refine ⟨other, mem_exceptSlot.mpr ⟨there, fun slots => differs ?_⟩, ranked, rfl, rfl⟩
      rw [represents.eq_of_slot there member slots]
      exact ⟨rfl, rfl⟩

/-! ### The loop over the buckets -/

end

variable {bucket : Priority}

theorem edf_first (represents : Represents sets queued) {top : ActiveJob} {next : EdfReadySet 64}
    (popped : (sets.edf bucket).popNext = (some top, next)) :
    ∃ q ∈ queued, q.bucket = bucket ∧ q.isEdf = true ∧ q.job = top ∧
      (∀ other ∈ queued, other.bucket = bucket → other.isEdf = true → q.sortKey ≤ other.sortKey) ∧
      Represents { sets with edf := update sets.edf bucket next } (exceptSlot queued q.slot) := by
  rcases EdfReadySet.popNext_some (represents.valid bucket).heaped popped with ⟨gone, least⟩
  have member := gone.entries.mem_iff.mpr List.mem_cons_self
  rcases (represents.deadlines bucket top).mp member with ⟨q, there, rfl, edf, rfl⟩
  refine ⟨q, there, rfl, edf, rfl, fun other waits bucketed timed => ?_, ?_⟩
  · apply least other.job
    exact (represents.deadlines q.bucket _).mpr ⟨other, waits, bucketed, timed, rfl⟩
  · exact represents.pop_edf there edf gone

theorem edf_none (represents : Represents sets queued)
    (popped : ((sets.edf bucket).popNext).1 = none) :
    ∀ other ∈ queued, other.bucket = bucket → other.isEdf = false := by
  intro other waits bucketed
  rw [← Bool.not_eq_true]
  intro timed
  have member := (represents.deadlines bucket other.job).mpr ⟨other, waits, bucketed, timed, rfl⟩
  rw [(EdfReadySet.popNext_none_iff _).mp popped] at member
  cases member

theorem within_iff (fifo : q.isEdf = false) :
    RankedFifoSet.Within bucket.levelRange.1 bucket.levelRange.2 (toLex (q.level.toNat, q.slot)) ↔
      q.bucket = bucket := by
  cases urgency : q.urgency with
  | edf deadlineUs => simp [QueuedSlot.isEdf, urgency] at fifo
  | fifo rank =>
    have range := Priority.mem_levelRange_iff bucket q.bucket rank
    rw [UInt8.le_iff_toNat_le, UInt8.lt_iff_toNat_lt] at range
    rw [RankedFifoSet.Within, QueuedSlot.level, urgency, ofLex_toLex]
    exact range.trans eq_comm

theorem fifo_first (represents : Represents sets queued) {top : ActiveJob}
    (popped : (sets.fifo.popIn bucket.levelRange.1 bucket.levelRange.2).1 = some top) :
    ∃ q ∈ queued, q.bucket = bucket ∧ q.isEdf = false ∧ q.slot = top.descIdx.toNat ∧
      (∀ other ∈ queued, other.bucket = bucket → other.isEdf = false →
        toLex (q.level.toNat, q.slot) ≤ toLex (other.level.toNat, other.slot)) ∧
      Represents
        { sets with fifo := (sets.fifo.popIn bucket.levelRange.1 bucket.levelRange.2).2 }
        (exceptSlot queued q.slot) := by
  rcases RankedFifoSet.popIn_least represents.marked represents.ranks bucket.levelRange.1
    bucket.levelRange.2 with ⟨result, marked, holds⟩
  rw [result] at popped
  rcases Option.map_eq_some_iff.mp popped with ⟨e, found, rfl⟩
  rw [found] at holds
  rcases WindowQueue.least_eq_some_iff.mp found with ⟨⟨member, within⟩, least⟩
  rcases mem_rankedPairs.mp member with ⟨q, there, fifo, level, slot⟩
  have pair : e = toLex (q.level.toNat, q.slot) := by
    rw [level, slot]
    rfl
  subst pair
  refine ⟨q, there, (within_iff fifo).mp within, fifo, ?_, ?_, ?_⟩
  · exact (QueuedSlot.toNat_descIdx (represents.inside q there)).symm
  · intro other waits bucketed ranked
    apply least
    exact ⟨mem_rankedPairs.mpr ⟨other, waits, ranked, rfl, rfl⟩, (within_iff ranked).mpr bucketed⟩
  · exact represents.pop_fifo there fifo marked holds

theorem fifo_none (represents : Represents sets queued)
    (popped : (sets.fifo.popIn bucket.levelRange.1 bucket.levelRange.2).1 = none) :
    (∀ other ∈ queued, other.bucket = bucket → other.isEdf = true) ∧ Represents
        { sets with fifo := (sets.fifo.popIn bucket.levelRange.1 bucket.levelRange.2).2 }
        queued := by
  rcases RankedFifoSet.popIn_least represents.marked represents.ranks bucket.levelRange.1
    bucket.levelRange.2 with ⟨result, marked, holds⟩
  rw [result] at popped
  rw [Option.map_eq_none_iff.mp popped] at holds
  constructor
  · intro other waits bucketed
    rw [← Bool.not_eq_false]
    intro ranked
    apply WindowQueue.least_eq_none_iff.mp (Option.map_eq_none_iff.mp popped)
      (toLex (other.level.toNat, other.slot))
    · exact mem_rankedPairs.mpr ⟨other, waits, ranked, rfl, rfl⟩
    · exact (within_iff ranked).mpr bucketed
  · exact { represents with marked := marked, ranks := holds }

/-- The foremost slot is picked, and there is none only if nothing is queued. -/
structure Picks (queued : List QueuedSlot) (picked : Option ActiveJob × ReadySets) : Prop where
  none_iff : picked.1 = none ↔ queued = []
  some_of : ∀ job, picked.1 = some job → ∃ q, Foremost queued q ∧ job.descIdx.toNat = q.slot ∧
    Represents picked.2 (exceptSlot queued q.slot)

theorem Picks.of_some {picked : Option ActiveJob × ReadySets} {job : ActiveJob}
    (found : picked.1 = some job) (foremost : Foremost queued q)
    (slot : job.descIdx.toNat = q.slot) (rest : Represents picked.2 (exceptSlot queued q.slot)) :
    Picks queued picked where
  none_iff := by
    rw [found]
    exact iff_of_false nofun (List.ne_nil_of_mem foremost.waits)
  some_of other same := by
    rw [found] at same
    cases same
    exact ⟨q, foremost, slot, rest⟩

theorem pickFrom_spec {buckets : List Priority} (represents : Represents sets queued)
    (sorted : buckets.Pairwise fun a b => a.index < b.index)
    (left : ∀ q ∈ queued, q.bucket ∈ buckets) : Picks queued (ReadySets.pickFrom buckets sets) := by
  induction buckets generalizing sets with
  | nil =>
    have empty : queued = [] := List.eq_nil_iff_forall_not_mem.mpr fun q member =>
      List.not_mem_nil (left q member)
    exact ⟨iff_of_true rfl empty, nofun⟩
  | cons bucket rest ih =>
    rw [List.pairwise_cons] at sorted
    have first : ∀ other ∈ queued, bucket.index ≤ other.bucket.index := by
      intro other waits
      rcases List.mem_cons.mp (left other waits) with same | later
      · rw [same]
      · exact (sorted.1 _ later).le
    rw [ReadySets.pickFrom]
    cases deadline : ((sets.edf bucket).popNext).1 with
    | some top =>
      rcases represents.edf_first (Prod.ext deadline rfl) with
        ⟨q, waits, rfl, edf, rfl, least, after⟩
      have foremost : Foremost queued q :=
        ⟨waits, first, fun _ => least, fun fifo => absurd edf (by simp [fifo])⟩
      exact .of_some rfl foremost (QueuedSlot.toNat_descIdx (represents.inside q waits)) after
    | none =>
      have ranked := represents.edf_none deadline
      rw [EdfReadySet.popNext_eq_none deadline, update_eq_self]
      dsimp only
      cases level : (sets.fifo.popIn bucket.levelRange.1 bucket.levelRange.2).1 with
      | some top =>
        rcases represents.fifo_first level with ⟨q, waits, rfl, fifo, slot, least, after⟩
        have foremost : Foremost queued q := by
          refine ⟨waits, first, fun edf => absurd edf (by simp [fifo]), ?_⟩
          intro _ other there same
          exact ⟨ranked other there same, least other there same (ranked other there same)⟩
        exact .of_some rfl foremost slot.symm after
      | none =>
        rcases represents.fifo_none level with ⟨timed, after⟩
        apply ih after sorted.2
        intro other waits
        rcases List.mem_cons.mp (left other waits) with same | later
        · have edf := timed other waits same
          rw [ranked other waits same] at edf
          cases edf
        · exact later

theorem pick_spec (represents : Represents sets queued) : Picks queued sets.pick := by
  apply represents.pickFrom_spec
  · decide
  · intro other _
    cases other.bucket <;> decide

theorem foldl_insert (joined : List QueuedSlot) (represents : Represents sets queued)
    (inside : ∀ q ∈ joined, q.slot < 64) (once : ((queued ++ joined).map QueuedSlot.slot).Nodup) :
    Represents (joined.foldl ReadySets.insert sets) (queued ++ joined) := by
  induction joined generalizing sets queued with
  | nil => simpa using represents
  | cons q joined ih =>
    have absent : q.slot ∉ queued.map QueuedSlot.slot := by
      rw [List.map_append, List.map_cons] at once
      exact fun member => List.disjoint_of_nodup_append once member List.mem_cons_self
    have head := represents.insert (inside q List.mem_cons_self) absent
    rw [List.append_cons] at once ⊢
    exact ih head (fun other member => inside other (List.mem_cons_of_mem _ member)) once

end Represents

end NanoRos
