import NanoRos.Alloc.HeapRun

/-! `used` and `peak` against the blocks the caller holds. -/

namespace NanoRos

open FreeListHeap

/-- The bytes of blocks that lie side by side. -/
def total (blocks : List PoolBlock) : Nat := (blocks.map PoolBlock.usable).sum

theorem total_cons (b : PoolBlock) (blocks : List PoolBlock) :
    total (b :: blocks) = b.usable + total blocks := by
  rw [total, List.map_cons, List.sum_cons, ← total]

theorem total_perm {blocks blocks' : List PoolBlock} (same : blocks.Perm blocks') :
    total blocks = total blocks' :=
  (same.map PoolBlock.usable).sum_eq

namespace HeapRun

variable {layout : HeapLayout} {rlsf : PoolAllocator}

/-- What the live blocks cost: the occupied slots, and the blocks of the pool as rlsf sizes
them. -/
def charge (s : HeapRun layout rlsf) : Nat :=
  slabSlotSize * (List.range slabSlotCount).countP s.heap.slot +
    ((s.live.filter fun b => !s.heap.isInSlab b.addr).map fun b => s.heap.extent b.addr).sum

theorem countP_slot {h : FreeListHeap layout rlsf} {slabs : List PoolBlock}
    (held : h.SlabHeld slabs) : (List.range slabSlotCount).countP h.slot = slabs.length := by
  have addresses : (((List.range slabSlotCount).filter h.slot).map (slotAddr layout)).Perm
      (slabs.map PoolBlock.addr) := by
    apply (List.perm_ext_iff_of_nodup _ held.distinct).mpr
    · intro address
      rw [List.mem_map]
      constructor
      · rintro ⟨i, listed, rfl⟩
        rcases List.mem_filter.mp listed with ⟨inside, set⟩
        exact (held.bits i (List.mem_range.mp inside)).mp set
      · intro listed
        rcases List.mem_map.mp listed with ⟨b, member, rfl⟩
        rcases (held.shape b member).1 with ⟨i, inside, placed⟩
        rw [placed] at listed ⊢
        refine ⟨i, List.mem_filter.mpr ⟨List.mem_range.mpr inside, ?_⟩, rfl⟩
        exact (held.bits i inside).mpr listed
    · apply List.Nodup.map
      · intro i j same
        exact slotAddr_inj same
      · exact List.nodup_range.filter _
  have lengths := addresses.length_eq
  rw [List.length_map, List.length_map] at lengths
  rw [List.countP_eq_length_filter, lengths]

theorem charge_eq_total (lawful : rlsf.Lawful layout.pool) {s : HeapRun layout rlsf}
    (tracks : s.heap.Tracks s.live) : s.charge = total s.live := by
  rcases tracks.parts with ⟨slabs, split, held⟩
  have none : slabs.filter (fun b => !s.heap.isInSlab b.addr) = [] := by
    rw [List.filter_eq_nil_iff]
    intro b slab
    rcases (held.shape b slab).1 with ⟨i, inside, placed⟩
    rw [placed, s.heap.slot_in_slab inside]
    exact Bool.false_ne_true
  have all : s.heap.blocks.filter (fun b => !s.heap.isInSlab b.addr) = s.heap.blocks := by
    rw [List.filter_eq_self]
    intro b pool
    rw [(block_in_heap tracks.sound pool).2.1]
    rfl
  have kept := split.filter fun b => !s.heap.isInSlab b.addr
  rw [List.filter_append, none, all, List.nil_append] at kept
  have sizes : s.heap.blocks.map (fun b => s.heap.extent b.addr) =
      s.heap.blocks.map PoolBlock.usable := by
    apply List.map_congr_left
    intro b pool
    exact tracks.extent lawful (split.symm.subset (List.mem_append_right _ pool))
  have slots : total slabs = slabSlotSize * slabs.length := by
    rw [total, List.map_congr_left fun b slab => (held.shape b slab).2.1, List.map_const',
      List.sum_replicate, smul_eq_mul, Nat.mul_comm]
  rw [charge, countP_slot held, (kept.map _).sum_eq, sizes, total_perm split, ← slots]
  rw [total, total, List.map_append, List.sum_append]

section Counters

variable (lawful : rlsf.Lawful layout.pool) {h h' : FreeListHeap layout rlsf}
  {live rest : List PoolBlock}

theorem total_lt (tracks : h.Tracks live) : total live < layout.usizeLimit := by
  have inside : ∀ b ∈ live, 1 ≤ b.addr ∧ b.addr + b.usable ≤ layout.usizeLimit := by
    rcases tracks.parts with ⟨slabs, split, held⟩
    intro b member
    rcases List.mem_append.mp (split.subset member) with slab | pool
    · have region := held.region slab
      have positive := layout.slabPositive
      have ends := layout.slabEnds
      rw [HeapLayout.usizeLimit]
      omega
    · have region := tracks.sound.placed.inside b pool
      have positive := layout.heapPositive
      have ends := layout.heapEnds
      simp only [HeapLayout.pool] at region
      rw [HeapLayout.usizeLimit]
      omega
  have fits := sum_usable_le tracks.apart inside
  have some : 0 < layout.usizeLimit := Nat.two_pow_pos _
  rw [← total] at fits
  omega

include lawful

theorem alloc_counts (tracks : h.Tracks live) (exact : h.usedBytes = total live)
    (below : total live ≤ h.peakBytes) {size ptr : Nat} (done : h.alloc size = (ptr, h')) :
    h'.usedBytes = total (if ptr = nullPtr then live else given h' live ptr size) ∧ h'.peakBytes =
        max h.peakBytes (total (if ptr = nullPtr then live else given h' live ptr size)) := by
  rcases alloc_tracks lawful tracks done with ⟨_, _, ⟨rfl, _, used, peak⟩ |
    ⟨taken, u, tracks', used, peak⟩⟩
  · rw [if_pos rfl, used, peak, Nat.max_eq_left below]
    exact ⟨exact, rfl⟩
  · have size' := tracks'.extent lawful List.mem_cons_self
    have fits := total_lt tracks'
    have sum : h.usedBytes + u = total (⟨ptr, size, u⟩ :: live) := by
      rw [total_cons, exact, Nat.add_comm]
    rw [if_neg taken, given, size', used, peak, sum, Nat.mod_eq_of_lt fits]
    exact ⟨rfl, rfl⟩

theorem free_counts {s : HeapRun layout rlsf} (tracks : s.heap.Tracks s.live)
    (exact : s.heap.usedBytes = total s.live) (below : total s.live ≤ s.heap.peakBytes)
    {ptr : Nat} (allowed : s.Admissible ptr) :
    (s.heap.free ptr).usedBytes = total (without s.live ptr) ∧
      (s.heap.free ptr).peakBytes = max s.heap.peakBytes (total (without s.live ptr)) := by
  by_cases listed : ptr ∈ s.live.map PoolBlock.addr
  · rcases List.mem_map.mp listed with ⟨b, member, rfl⟩
    have own := perm_without tracks.distinct member
    have retired := free_tracks lawful tracks own
    have parts := total_perm own
    have fits := total_lt tracks
    rw [total_cons] at parts
    rw [retired.used (by omega) (by omega), retired.peak]
    omega
  · rw [without_of_absent listed, Nat.max_eq_left below, ← exact]
    by_cases null : ptr = nullPtr
    · rw [FreeListHeap.free, if_pos null]
      exact ⟨rfl, rfl⟩
    · rw [s.heap.free_foreign null (foreign_of_admissible listed null allowed)]
      exact ⟨rfl, rfl⟩

/-- `realloc` of a live block, once the speculative block is there: the peak has seen both, and
the bytes in use are right unless rlsf gave the block another size. -/
theorem realloc_counts (tracks : h.Tracks live) (exact : h.usedBytes = total live) {b : PoolBlock}
    (own : live.Perm (b :: rest)) {size p q : Nat} {last : FreeListHeap layout rlsf}
    (positive : 0 < size) (taken : p ≠ nullPtr) (done : h.alloc size = (p, h'))
    (finished : h.realloc b.addr size = (q, last)) :
    last.peakBytes = max h.peakBytes (total live + h'.extent p) ∧
      (last.usedBytes = total (if q = nullPtr then live else given last rest q size) ↔
        h.isInSlab b.addr = true ∨ h'.movedExtent b.addr p size = none ∨
          h'.movedExtent b.addr p size = some (h.extent b.addr)) ∧
      (last.usedBytes = total (if q = nullPtr then live else given last rest q size) →
        last.usedBytes < total live + h'.extent p) := by
  have member : b ∈ live := own.symm.subset List.mem_cons_self
  have parts := total_perm own
  have size' := tracks.extent lawful member
  rw [total_cons] at parts
  rw [realloc_eq tracks member positive done, if_neg taken] at finished
  rcases alloc_tracks lawful tracks done with ⟨_, _, ⟨null, _⟩ | ⟨_, u, tracks', used, peak⟩⟩
  · exact absurd null taken
  have fresh : h'.extent p = u := tracks'.extent lawful List.mem_cons_self
  have large : size ≤ u := (tracks'.block List.mem_cons_self).2.1
  have fits : u + total live < layout.usizeLimit := by
    rw [← total_cons ⟨p, size, u⟩ live]
    exact total_lt tracks'
  rw [exact, Nat.mod_eq_of_lt (by omega)] at used peak
  rw [fresh]
  rcases tracks.region member with ⟨_, ⟨slab, usable⟩ | ⟨away, _, _⟩⟩
  · rcases moveTo_slab lawful tracks' own slab usable with
      ⟨last', moved, tracks'', _, _, _, peak', used'⟩
    dsimp only at moved
    rw [moved] at finished
    cases finished
    have size'' : last.extent p = u := tracks''.extent lawful List.mem_cons_self
    have credited := used' (by omega) (by omega)
    have counted : last.usedBytes = total (given last rest p size) := by
      rw [credited, given, size'', total_cons, used]
      dsimp only
      omega
    rw [if_neg taken]
    refine ⟨peak'.trans peak, ⟨fun _ => .inl slab, fun _ => counted⟩, fun _ => ?_⟩
    have some : 0 < slabSlotSize := by decide
    omega
  · rcases moveTo_pool lawful tracks' own away with ⟨outcome, peak', used', extent'⟩
    dsimp only at outcome peak' used' extent'
    rw [finished] at outcome peak' used' extent'
    have credited : last.usedBytes = h'.usedBytes - u := used' (by omega) (by omega)
    have same : last.usedBytes = total live := by omega
    rw [extent', away, same]
    refine ⟨peak'.trans peak, ?_, fun _ => by omega⟩
    cases outcome with
    | null => simp
    | moved _ u' _ moved tracks'' =>
      have size'' : last.extent q = u' := tracks''.extent lawful List.mem_cons_self
      rw [if_neg moved, if_neg moved, given, size'', size', total_cons]
      simp only [Bool.false_eq_true, false_or, reduceCtorEq, Option.some.injEq]
      omega

end Counters

end HeapRun

/-- A run, and the most its live blocks cost so far between two calls. -/
structure MeteredHeap (layout : HeapLayout) (rlsf : PoolAllocator) where
  now : HeapRun layout rlsf
  highest : Nat

namespace MeteredHeap

variable {layout : HeapLayout} {rlsf : PoolAllocator}

def init (memory : Bytes) : MeteredHeap layout rlsf := ⟨.init memory, 0⟩

def step (s : MeteredHeap layout rlsf) (e : HeapEvent) : Option (MeteredHeap layout rlsf) :=
  (s.now.step e).map fun next => ⟨next, max s.highest next.charge⟩

/-- `used` and `peak` tell what the live blocks cost now and cost at most. -/
structure Exact (s : MeteredHeap layout rlsf) : Prop where
  used : s.now.heap.usedBytes = s.now.charge
  returned : s.now.live = [] → s.now.heap.usedBytes = 0
  peak : s.now.heap.peakBytes = s.highest

/-- A `realloc` of a live block that gets its speculative block: that block fits under the
highest cost so far, and rlsf leaves a block of the pool at its size. -/
def Settles (s : MeteredHeap layout rlsf) : HeapEvent → Prop
  | .realloc ptr size =>
    ptr ∈ s.now.live.map PoolBlock.addr → 0 < size → (s.now.heap.alloc size).1 ≠ nullPtr →
      s.now.charge + s.now.heap.speculative size ≤ s.highest ∧
      (s.now.heap.isInSlab ptr = true ∨ s.now.heap.moved ptr size = none ∨
        s.now.heap.moved ptr size = some (s.now.heap.extent ptr))
  | _ => True

instance (s : MeteredHeap layout rlsf) (e : HeapEvent) : Decidable (s.Settles e) :=
  match e with
  | .realloc _ _ => inferInstanceAs (Decidable (_ → _ → _ → _))
  | .alloc _ => isTrue trivial
  | .free _ => isTrue trivial
  | .store _ _ => isTrue trivial

/-- What every run keeps, exact or not. -/
structure Metered (s : MeteredHeap layout rlsf) : Prop where
  tracks : s.now.heap.Tracks s.now.live
  below : s.now.charge ≤ s.highest

section

variable (lawful : rlsf.Lawful layout.pool)
include lawful

theorem exact_iff {s : MeteredHeap layout rlsf} (tracks : s.now.heap.Tracks s.now.live) : s.Exact ↔
      s.now.heap.usedBytes = total s.now.live ∧ s.now.heap.peakBytes = s.highest := by
  constructor
  · intro exact
    exact ⟨exact.used.trans (HeapRun.charge_eq_total lawful tracks), exact.peak⟩
  · rintro ⟨used, peak⟩
    refine ⟨used.trans (HeapRun.charge_eq_total lawful tracks).symm, ?_, peak⟩
    intro none
    rw [used, none]
    rfl

theorem step_metered (s : MeteredHeap layout rlsf) (e : HeapEvent) (next : MeteredHeap layout rlsf)
    (metered : s.Metered) (stepped : s.step e = some next) : next.Metered := by
  rcases Option.map_eq_some_iff.mp stepped with ⟨now, moved, rfl⟩
  exact ⟨HeapRun.step_tracks lawful s.now e now metered.tracks moved, Nat.le_max_right _ _⟩

theorem exact_of_counts {s : MeteredHeap layout rlsf} (exact : s.Exact) {now : HeapRun layout rlsf}
    (tracks : now.heap.Tracks now.live) (counts : now.heap.usedBytes = total now.live ∧
      now.heap.peakBytes = max s.now.heap.peakBytes (total now.live)) :
    (MeteredHeap.mk now (max s.highest now.charge)).Exact := by
  rw [exact_iff lawful tracks]
  dsimp only
  rw [HeapRun.charge_eq_total lawful tracks, counts.2, exact.peak]
  exact ⟨counts.1, rfl⟩

theorem step_counts {s next : HeapRun layout rlsf} {e : HeapEvent} (tracks : s.heap.Tracks s.live)
    (exact : s.heap.usedBytes = total s.live) (below : total s.live ≤ s.heap.peakBytes)
    (stepped : s.step e = some next) : (∃ b ∈ s.live, ∃ size, 0 < size ∧ e = .realloc b.addr size) ∨
      next.heap.usedBytes = total next.live ∧
        next.heap.peakBytes = max s.heap.peakBytes (total next.live) := by
  cases e with
  | alloc size =>
    cases stepped
    exact .inr (HeapRun.alloc_counts lawful tracks exact below rfl)
  | realloc ptr size =>
    simp only [HeapRun.step] at stepped
    split at stepped
    case isFalse => cases stepped
    case isTrue allowed =>
      cases stepped
      dsimp only
      by_cases zero : size = 0
      · rw [if_pos zero, realloc]
        right
        by_cases null : ptr = nullPtr
        · rw [without_of_absent (HeapRun.not_live tracks (.inl null)), if_pos null, zero]
          exact ⟨exact, (Nat.max_eq_left below).symm⟩
        · rw [if_neg null, if_pos zero]
          exact HeapRun.free_counts lawful tracks exact below allowed
      · rw [if_neg zero]
        by_cases listed : ptr ∈ s.live.map PoolBlock.addr
        · rcases List.mem_map.mp listed with ⟨b, member, rfl⟩
          exact .inl ⟨b, member, size, Nat.pos_of_ne_zero zero, rfl⟩
        · rw [without_of_absent listed]
          right
          by_cases null : ptr = nullPtr
          · rw [realloc, if_pos null]
            exact HeapRun.alloc_counts lawful tracks exact below rfl
          · have away := HeapRun.foreign_of_admissible listed null allowed
            rw [s.heap.realloc_foreign null away, if_pos rfl]
            exact ⟨exact, (Nat.max_eq_left below).symm⟩
  | free ptr =>
    simp only [HeapRun.step] at stepped
    split at stepped
    case isFalse => cases stepped
    case isTrue allowed =>
      cases stepped
      exact .inr (HeapRun.free_counts lawful tracks exact below allowed)
  | store addr byte =>
    simp only [HeapRun.step] at stepped
    split at stepped
    case isFalse => cases stepped
    case isTrue =>
      cases stepped
      exact .inr ⟨exact, (Nat.max_eq_left below).symm⟩

theorem realloc_decides {s : MeteredHeap layout rlsf} (metered : s.Metered) (exact : s.Exact)
    {b : PoolBlock} (member : b ∈ s.now.live) {size : Nat} (positive : 0 < size)
    {now : HeapRun layout rlsf} (stepped : s.now.step (.realloc b.addr size) = some now) :
    (MeteredHeap.mk now (max s.highest now.charge)).Exact ↔ s.Settles (.realloc b.addr size) := by
  have tracks := metered.tracks
  have tracks' := HeapRun.step_tracks lawful _ _ _ tracks stepped
  have books := (exact_iff lawful tracks).mp exact
  have cost := HeapRun.charge_eq_total lawful tracks
  have below := metered.below
  have listed : b.addr ∈ s.now.live.map PoolBlock.addr := List.mem_map_of_mem member
  rw [exact_iff lawful tracks', HeapRun.charge_eq_total lawful tracks']
  rw [HeapRun.step, if_pos (.inr (.inl listed))] at stepped
  rcases finished : s.now.heap.realloc b.addr size with ⟨q, last⟩
  rcases done : s.now.heap.alloc size with ⟨p, h'⟩
  rw [finished] at stepped
  simp only [if_neg (Nat.ne_of_gt positive), Option.some.injEq] at stepped
  subst stepped
  simp only [Settles, listed, positive, done, speculative, moved, true_implies]
  by_cases null : p = nullPtr
  · rw [realloc_eq tracks member positive done, if_pos null] at finished
    cases finished
    rcases alloc_tracks lawful tracks done with ⟨_, _, ⟨_, _, used, peak⟩ | ⟨taken, _⟩⟩
    · rw [if_pos rfl]
      refine ⟨fun _ taken => absurd null taken, fun _ => ⟨used.trans books.1, ?_⟩⟩
      omega
    · exact absurd null taken
  · rcases HeapRun.realloc_counts lawful tracks books.1 (perm_without tracks.distinct member)
      positive null done finished with ⟨peak, counted, strict⟩
    rw [← counted]
    constructor
    · rintro ⟨used, seen⟩ _
      have less := strict used
      refine ⟨?_, used⟩
      omega
    · intro settled
      rcases settled null with ⟨under, used⟩
      have less := strict used
      refine ⟨used, ?_⟩
      omega

theorem step_decides (s : MeteredHeap layout rlsf) (e : HeapEvent) (next : MeteredHeap layout rlsf)
    (metered : s.Metered) (exact : s.Exact) (stepped : s.step e = some next)
    : next.Exact ↔ s.Settles e := by
  have books := (exact_iff lawful metered.tracks).mp exact
  have below := metered.below
  rw [HeapRun.charge_eq_total lawful metered.tracks, ← books.2] at below
  rcases Option.map_eq_some_iff.mp stepped with ⟨now, moved, rfl⟩
  by_cases own : ∃ b ∈ s.now.live, ∃ size, 0 < size ∧ e = .realloc b.addr size
  · rcases own with ⟨b, member, size, positive, rfl⟩
    exact realloc_decides lawful metered exact member positive moved
  · rcases step_counts lawful metered.tracks books.1 below moved with own' | counts
    · exact absurd own' own
    · have tracks' := HeapRun.step_tracks lawful _ _ _ metered.tracks moved
      apply iff_of_true (exact_of_counts lawful exact tracks' counts)
      cases e with
      | realloc ptr size =>
        intro listed positive
        rcases List.mem_map.mp listed with ⟨b, member, rfl⟩
        exact absurd ⟨b, member, size, positive, rfl⟩ own
      | alloc | free | store => trivial

end

/-- `used` and `peak` are exact in every state of the run if and only if each `realloc` of a live
block settles. -/
theorem heap_accounting_exact_iff (lawful : rlsf.Lawful layout.pool) (memory : Bytes)
    (events : List HeapEvent) (last : MeteredHeap layout rlsf)
    (reached : run step (init memory) events = some last) :
    (∀ before, before <+: events → ∀ mid : MeteredHeap layout rlsf,
      run step (init memory) before = some mid → mid.Exact) ↔
    Along step Settles (init memory : MeteredHeap layout rlsf) events := by
  have tracks : (init memory : MeteredHeap layout rlsf).now.heap.Tracks [] :=
    tracks_new lawful memory
  have nothing := HeapRun.charge_eq_total lawful tracks
  apply run_throughout_iff (step_metered lawful) (step_decides lawful) _ _ _ _ _ reached
  · exact ⟨tracks, nothing.le⟩
  · exact (exact_iff lawful tracks).mpr ⟨rfl, rfl⟩

open HeapRun (smallLayout smallPool smallPool_lawful)

/-- Two blocks, one of them freed, leave room under the peak for a `realloc` to a size that rounds
up to the same; the counter is back at zero in the end. -/
theorem accounting_exact_under_the_peak : ∃ last : MeteredHeap smallLayout smallPool,
    run step (init fun _ => 0) [.alloc 1000, .alloc 1000, .free 5136, .realloc 4112 1005,
      .free 4112] = some last ∧
    last.now.live = [] ∧ last.now.heap.peakBytes = 2016 ∧ last.Exact := by
  have seen : (run step (init fun _ => 0 : MeteredHeap smallLayout smallPool) [.alloc 1000,
      .alloc 1000, .free 5136, .realloc 4112 1005, .free 4112]).map
      (fun s => (s.now.live, s.now.heap.peakBytes)) = some ([], 2016) := by
    decide +kernel
  rcases Option.map_eq_some_iff.mp seen with ⟨last, reached, facts⟩
  simp only [Prod.mk.injEq] at facts
  have settled : Along step Settles (init fun _ => 0 : MeteredHeap smallLayout smallPool)
      [.alloc 1000, .alloc 1000, .free 5136, .realloc 4112 1005, .free 4112] := by
    decide +kernel
  exact ⟨last, reached, facts.1, facts.2, (heap_accounting_exact_iff smallPool_lawful _ _ last
    reached).mpr settled _ (List.prefix_refl _) last reached⟩

/-- rlsf shrinks a block in place. Its old size stays in the counter, and only the new size is
taken out when it is freed; the peak has the speculative block on top of the old one. -/
theorem accounting_drifts_on_shrink : ∃ last : MeteredHeap smallLayout smallPool,
    run step (init fun _ => 0) [.alloc 1000, .realloc 4112 100, .free 4112] = some last ∧
    last.now.live = [] ∧ last.now.heap.usedBytes = 896 ∧ last.now.heap.peakBytes = 1120 ∧
    last.highest = 1008 ∧ ¬ last.Exact := by
  have seen : (run step (init fun _ => 0 : MeteredHeap smallLayout smallPool) [.alloc 1000,
      .realloc 4112 100, .free 4112]).map (fun s => (s.now.live, s.now.heap.usedBytes,
      s.now.heap.peakBytes, s.highest)) = some ([], 896, 1120, 1008) := by
    decide +kernel
  rcases Option.map_eq_some_iff.mp seen with ⟨last, reached, facts⟩
  simp only [Prod.mk.injEq] at facts
  rcases facts with ⟨live, used, peak, highest⟩
  refine ⟨last, reached, live, used, peak, highest, ?_⟩
  intro exact
  have zero := exact.returned live
  rw [used] at zero
  cases zero

end MeteredHeap

end NanoRos
