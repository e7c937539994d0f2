import NanoRos.Alloc.Heap

/-! The blocks a caller holds, against the bitmap and the pool they came from. -/

namespace NanoRos

namespace FreeListHeap

variable {layout : HeapLayout} {rlsf : PoolAllocator}

/-- Blocks that lie in slots of the slab, one for each bit that is set. -/
structure SlabHeld (h : FreeListHeap layout rlsf) (slabs : List PoolBlock) : Prop where
  shape : ∀ b ∈ slabs, (∃ i < slabSlotCount, b.addr = slotAddr layout i) ∧
    b.usable = slabSlotSize ∧ b.request ≤ slabSlotSize ∧ 0 < b.request
  bits : ∀ i < slabSlotCount, h.slot i = true ↔ slotAddr layout i ∈ slabs.map PoolBlock.addr
  distinct : (slabs.map PoolBlock.addr).Nodup

/-- The live blocks are those in slots and those the pool has handed out. -/
structure Tracks (h : FreeListHeap layout rlsf) (live : List PoolBlock) : Prop where
  sound : h.Sound
  parts : ∃ slabs, live.Perm (slabs ++ h.blocks) ∧ h.SlabHeld slabs

variable {i j : Nat} {blocks : List PoolBlock} {h : FreeListHeap layout rlsf}
  {slabs : List PoolBlock} {h' : FreeListHeap layout rlsf} {size : Nat} {b : PoolBlock}
  {live rest : List PoolBlock}

theorem slotAddr_inj (same : slotAddr layout i = slotAddr layout j) : i = j := by
  simp only [slotAddr, slabSlotSize] at same
  omega

section Region

variable {h : FreeListHeap layout rlsf} {slabs : List PoolBlock}

variable {b : PoolBlock} {live : List PoolBlock}

theorem SlabHeld.region (held : h.SlabHeld slabs) (member : b ∈ slabs) :
    layout.slabBase ≤ b.addr ∧ b.addr + b.usable ≤ layout.slabBase + slabRegionSize := by
  rcases held.shape b member with ⟨⟨i, inside, placed⟩, usable, _, _⟩
  rw [placed, usable]
  simp only [slotAddr, slabRegionSize, slabSlotSize, slabSlotCount] at inside ⊢
  omega

theorem SlabHeld.apart (held : h.SlabHeld slabs) : slabs.Pairwise PoolBlock.Apart := by
  have distinct := held.distinct
  rw [List.Nodup, List.pairwise_map] at distinct
  apply List.Pairwise.imp_of_mem _ distinct
  intro a b first second differ
  rcases held.shape a first with ⟨⟨i, _, placed⟩, usable, _, _⟩
  rcases held.shape b second with ⟨⟨j, _, placed'⟩, usable', _, _⟩
  have other : i ≠ j := by
    rintro rfl
    exact differ (placed.trans placed'.symm)
  rw [PoolBlock.Apart, placed, placed', usable, usable']
  simp only [slotAddr, slabSlotSize]
  omega

theorem slab_apart_pool (held : h.SlabHeld slabs) (sound : h.Sound) {a : PoolBlock}
    (slab : a ∈ slabs) (pool : b ∈ h.blocks) : a.Apart b := by
  have low := held.region slab
  have high := sound.placed.inside b pool
  have regions := layout.apart
  simp only [HeapLayout.pool] at high
  rw [PoolBlock.Apart]
  omega

theorem Tracks.apart (tracks : h.Tracks live) :
    live.Pairwise PoolBlock.Apart := by
  rcases tracks.parts with ⟨slabs, split, held⟩
  rw [split.pairwise_iff PoolBlock.Apart.symm, List.pairwise_append]
  refine ⟨held.apart, tracks.sound.placed.apart, ?_⟩
  intro a slab b pool
  exact slab_apart_pool held tracks.sound slab pool

theorem Tracks.block (tracks : h.Tracks live) (member : b ∈ live) :
    layout.align ∣ b.addr ∧ b.request ≤ b.usable ∧ 0 < b.request := by
  rcases tracks.parts with ⟨slabs, split, held⟩
  rcases List.mem_append.mp (split.subset member) with slab | pool
  · rcases held.shape b slab with ⟨⟨i, _, placed⟩, usable, small, positive⟩
    refine ⟨?_, usable ▸ small, positive⟩
    have sixteen : layout.align ∣ 16 := by
      rcases layout.word with word | word
      · exact ⟨2, by rw [HeapLayout.align, word]⟩
      · exact ⟨1, by rw [HeapLayout.align, word]⟩
    rw [placed, slotAddr]
    apply Nat.dvd_add
    · exact sixteen.trans layout.slabAligned
    · exact (sixteen.trans ⟨4, rfl⟩).trans (Nat.dvd_mul_left _ _)
  · exact ⟨tracks.sound.placed.aligned b pool, tracks.sound.placed.large b pool,
      tracks.sound.placed.positive b pool⟩

theorem Tracks.distinct (tracks : h.Tracks live) : (live.map PoolBlock.addr).Nodup := by
  rw [List.Nodup, List.pairwise_map]
  apply List.Pairwise.imp_of_mem _ tracks.apart
  intro a b first second apart same
  have largeA := tracks.block first
  have largeB := tracks.block second
  rcases apart with before | behind
  · omega
  · omega

end Region

/-- The bytes of the blocks are as they were. -/
def SameBytes (blocks : List PoolBlock) (before after : Bytes) : Prop :=
  ∀ b ∈ blocks, ∀ i < b.usable, after (b.addr + i) = before (b.addr + i)

theorem SameBytes.mono {blocks' : List PoolBlock} {before after : Bytes}
    (same : SameBytes blocks before after) (fewer : blocks' ⊆ blocks) :
    SameBytes blocks' before after :=
  fun b member => same b (fewer member)

theorem SameBytes.trans {first second third : Bytes} (left : SameBytes blocks first second)
    (right : SameBytes blocks second third) :
    SameBytes blocks first third :=
  fun b member i inside => (right b member i inside).trans (left b member i inside)

theorem SlabHeld.sameBytes {before after : Bytes} (held : h.SlabHeld slabs)
    (untouched : Untouched layout.pool blocks before after) :
    SameBytes (slabs ++ blocks) before after := by
  intro b member i inside
  rcases List.mem_append.mp member with slab | pool
  · apply untouched.outside
    have region := held.region slab
    have regions := layout.apart
    simp only [HeapLayout.pool]
    omega
  · exact untouched.blocks b pool i inside

theorem SlabHeld.of_bitmap (held : h.SlabHeld slabs)
    (bitmap : h'.slabUsedBitmap = h.slabUsedBitmap) :
    h'.SlabHeld slabs where
  shape := held.shape
  bits := by
    intro i inside
    rw [slot, bitmap]
    exact held.bits i inside
  distinct := held.distinct

theorem tracks_new (lawful : rlsf.Lawful layout.pool) (memory : Bytes) :
    (new memory : FreeListHeap layout rlsf).Tracks [] where
  sound := sound_new lawful memory
  parts := by
    have empty : (new memory : FreeListHeap layout rlsf).blocks = [] := lawful.new_blocks
    refine ⟨[], by rw [empty]; exact .refl _, ⟨?_, ?_, List.nodup_nil⟩⟩
    · intro b member
      cases member
    · intro i inside
      rw [slot, new, List.map_nil]
      simp

variable (h)

theorem slot_set (inside : j < slabSlotCount) :
    ({ h with slabUsedBitmap := h.slabUsedBitmap ||| (1#8 <<< i) } :
      FreeListHeap layout rlsf).slot j = (h.slot j || decide (j = i)) := by
  rw [slot, BitVec.getLsbD_or, getLsbD_oneShift i j inside]
  rfl

theorem slot_clear (inside : j < slabSlotCount) :
    ({ h with slabUsedBitmap := h.slabUsedBitmap &&& ~~~(1#8 <<< i) } :
      FreeListHeap layout rlsf).slot j = (h.slot j && !decide (j = i)) := by
  have inside' : j < 8 := inside
  rw [slot, BitVec.getLsbD_and, BitVec.getLsbD_not, getLsbD_oneShift i j inside,
    decide_eq_true inside', Bool.true_and]
  rfl

variable {h}

theorem SlabHeld.set (held : h.SlabHeld slabs) (inside : i < slabSlotCount)
    (clear : h.slot i = false) (positive : 0 < size) (small : size ≤ slabSlotSize) :
    ({ h with slabUsedBitmap := h.slabUsedBitmap ||| (1#8 <<< i) } :
      FreeListHeap layout rlsf).SlabHeld (⟨slotAddr layout i, size, slabSlotSize⟩ :: slabs) where
  shape := List.forall_mem_cons.mpr ⟨⟨⟨i, inside, rfl⟩, rfl, small, positive⟩, held.shape⟩
  bits := by
    intro j inside'
    rw [h.slot_set inside', Bool.or_eq_true, decide_eq_true_iff, held.bits j inside',
      List.map_cons, List.mem_cons]
    constructor
    · rintro (old | rfl)
      · exact .inr old
      · exact .inl rfl
    · rintro (new | old)
      · exact .inr (slotAddr_inj new)
      · exact .inl old
  distinct := by
    rw [List.map_cons, List.nodup_cons]
    refine ⟨?_, held.distinct⟩
    intro listed
    rw [← held.bits i inside, clear] at listed
    cases listed

theorem SlabHeld.clear (held : h.SlabHeld (b :: slabs)) (placed : b.addr = slotAddr layout i) :
    ({ h with slabUsedBitmap := h.slabUsedBitmap &&& ~~~(1#8 <<< i) } :
      FreeListHeap layout rlsf).SlabHeld slabs where
  shape := fun b' member => held.shape b' (List.mem_cons_of_mem b member)
  bits := by
    have once := held.distinct
    rw [List.map_cons, List.nodup_cons, placed] at once
    intro j inside
    rw [h.slot_clear inside, Bool.and_eq_true, Bool.not_eq_true', decide_eq_false_iff_not,
      held.bits j inside, List.map_cons, List.mem_cons, placed]
    constructor
    · rintro ⟨new | old, other⟩
      · exact absurd (slotAddr_inj new) other
      · exact old
    · intro old
      refine ⟨.inr old, ?_⟩
      rintro rfl
      exact once.1 old
  distinct := by
    have once := held.distinct
    rw [List.map_cons, List.nodup_cons] at once
    exact once.2

theorem alloc_tracks (lawful : rlsf.Lawful layout.pool) (tracks : h.Tracks live) {p : Nat}
    (done : h.alloc size = (p, h')) :
    SameBytes live h.memory h'.memory ∧ h'.foreignFrees = h.foreignFrees ∧
      (p = nullPtr ∧ h'.Tracks live ∧ h'.usedBytes = h.usedBytes ∧ h'.peakBytes = h.peakBytes ∨
        p ≠ nullPtr ∧ ∃ u, h'.Tracks (⟨p, size, u⟩ :: live) ∧
          h'.usedBytes = (h.usedBytes + u) % layout.usizeLimit ∧
          h'.peakBytes = max h.peakBytes ((h.usedBytes + u) % layout.usizeLimit)) := by
  have allocated := alloc_allocated lawful tracks.sound size
  rcases tracks.parts with ⟨slabs, split, held⟩
  rw [done] at allocated
  cases allocated with
  | null _ quiet =>
    have kept := held.sameBytes quiet.memory
    refine ⟨kept.mono split.subset, quiet.foreign, .inl ⟨rfl, ⟨quiet.sound, slabs, ?_, ?_⟩,
      quiet.used, quiet.peak⟩⟩
    · exact split.trans (quiet.blocks.symm.append_left slabs)
    · exact held.of_bitmap quiet.bitmap
  | slab i inside clear positive small =>
    refine ⟨fun _ _ _ _ => rfl, rfl, .inr ⟨slotAddr_ne_null layout i, slabSlotSize,
      ⟨⟨tracks.sound.placed, tracks.sound.untaken⟩,
        ⟨slotAddr layout i, size, slabSlotSize⟩ :: slabs, split.cons _, ?_⟩, rfl, rfl⟩⟩
    exact (held.set inside clear positive small).of_bitmap rfl
  | tlsf _ u _ positive blocks sound memory bitmap foreign used peak =>
    have kept := held.sameBytes memory
    have listed : ⟨p, size, u⟩ ∈ h'.blocks := blocks.symm.subset List.mem_cons_self
    refine ⟨kept.mono split.subset, foreign, .inr ⟨(block_in_heap sound listed).1, u,
      ⟨sound, slabs, ?_, held.of_bitmap bitmap⟩, used, peak⟩⟩
    refine (split.cons _).trans (List.perm_middle.symm.trans ?_)
    exact blocks.symm.append_left slabs

theorem slotSize_lt_usizeLimit (layout : HeapLayout) : slabSlotSize < layout.usizeLimit := by
  rw [HeapLayout.usizeLimit]
  rcases layout.word with word | word
  · rw [word]
    decide
  · rw [word]
    decide

/-- What `free` of a live block means for the caller. -/
structure Retired (h h' : FreeListHeap layout rlsf) (b : PoolBlock) (rest : List PoolBlock) :
    Prop where
  tracks : h'.Tracks rest
  bytes : SameBytes rest h.memory h'.memory
  foreign : h'.foreignFrees = h.foreignFrees
  peak : h'.peakBytes = h.peakBytes
  used : b.usable ≤ h.usedBytes → h.usedBytes < layout.usizeLimit →
    h'.usedBytes = h.usedBytes - b.usable

section

variable (lawful : rlsf.Lawful layout.pool)
include lawful

theorem free_tracks (tracks : h.Tracks live) (own : live.Perm (b :: rest))
    : h.Retired (h.free b.addr) b rest := by
  rcases tracks.parts with ⟨slabs, split, held⟩
  have member : b ∈ slabs ++ h.blocks := split.subset (own.symm.subset List.mem_cons_self)
  rcases List.mem_append.mp member with slab | pool
  · rcases held.shape b slab with ⟨⟨i, inside, placed⟩, usable, _, _⟩
    have apart := List.perm_cons_erase slab
    have others : rest.Perm (slabs.erase b ++ h.blocks) := by
      apply List.Perm.cons_inv
      exact own.symm.trans (split.trans (apart.append_right _))
    have kept : h.SlabHeld (b :: slabs.erase b) := by
      refine ⟨fun b' listed => held.shape b' (apart.symm.subset listed), ?_, ?_⟩
      · intro j inside'
        rw [held.bits j inside', (apart.map PoolBlock.addr).mem_iff]
      · exact (apart.map PoolBlock.addr).nodup_iff.mp held.distinct
    rw [placed, h.free_slot inside]
    refine ⟨⟨⟨tracks.sound.placed, tracks.sound.untaken⟩, _, others, ?_⟩, fun _ _ _ _ => rfl,
      rfl, rfl, ?_⟩
    · exact (kept.clear placed).of_bitmap rfl
    · intro enough below
      have limit := slotSize_lt_usizeLimit layout
      rw [usable] at enough ⊢
      change (h.usedBytes + (layout.usizeLimit - slabSlotSize)) % layout.usizeLimit = _
      have wrapped : h.usedBytes + (layout.usizeLimit - slabSlotSize) =
          (h.usedBytes - slabSlotSize) + layout.usizeLimit := by omega
      rw [wrapped, Nat.add_mod_right, Nat.mod_eq_of_lt (by omega)]
  · have freed := free_block lawful tracks.sound pool
    have others : rest.Perm (slabs ++ (h.free b.addr).blocks) := by
      apply List.Perm.cons_inv
      refine own.symm.trans (split.trans ((freed.blocks.append_left slabs).trans ?_))
      exact List.perm_middle
    refine ⟨⟨freed.sound, slabs, others, held.of_bitmap freed.bitmap⟩, ?_, freed.foreign,
      freed.peak, fun _ _ => freed.used⟩
    exact (held.sameBytes freed.memory).mono others.subset

theorem reallocate_tracks (tracks : h.Tracks live) (ready : h.initialized = true)
    (own : live.Perm (b :: rest)) (pool : b ∈ h.blocks) (positive : 0 < size) {result : Option Nat}
    {tlsf : rlsf.State} {memory : Bytes}
    (moved : rlsf.reallocate h.tlsf h.memory b.addr size = (result, tlsf, memory)) :
    (∃ q u, result = some q ∧ (h.withTlsf tlsf memory).Tracks (⟨q, size, u⟩ :: rest) ∧
        q ≠ nullPtr ∧ SameBytes rest h.memory memory ∧
        ∀ i < min b.request size, memory (q + i) = h.memory (b.addr + i)) ∨
      result = none ∧ (h.withTlsf tlsf memory).Tracks live ∧ SameBytes live h.memory memory := by
  rcases tracks.parts with ⟨slabs, split, held⟩
  have started : (h.withTlsf tlsf memory).initialized = false →
      (h.withTlsf tlsf memory).tlsf = rlsf.new := by
    intro missing
    change h.initialized = false at missing
    rw [ready] at missing
    cases missing
  cases result with
  | none =>
    rcases lawful.preserved _ _ b _ _ _ tracks.sound.placed pool moved with ⟨same, untouched⟩
    have sound : (h.withTlsf tlsf memory).Sound := ⟨tracks.sound.placed.perm same.symm, started⟩
    refine .inr ⟨rfl, ⟨sound, slabs, ?_, held.of_bitmap rfl⟩, ?_⟩
    · exact split.trans (same.symm.append_left slabs)
    · exact (held.sameBytes untouched).mono split.subset
  | some q =>
    rcases lawful.reallocated _ _ b _ _ _ _ tracks.sound.placed pool positive moved with
      ⟨others, u, parts, grown, placed, untouched, copied⟩
    have sound : (h.withTlsf tlsf memory).Sound := ⟨placed, started⟩
    have remaining : rest.Perm (slabs ++ others) := by
      apply List.Perm.cons_inv
      refine own.symm.trans (split.trans ((parts.append_left slabs).trans ?_))
      exact List.perm_middle
    have listed : ⟨q, size, u⟩ ∈ (h.withTlsf tlsf memory).blocks :=
      grown.symm.subset List.mem_cons_self
    refine .inl ⟨q, u, rfl, ⟨sound, slabs, ?_, held.of_bitmap rfl⟩,
      (block_in_heap sound listed).1, ?_, copied⟩
    · refine (remaining.cons _).trans (List.perm_middle.symm.trans ?_)
      exact grown.symm.append_left slabs
    · exact (held.sameBytes untouched).mono remaining.subset

/-- How many bytes the block at an address has: `allocation_usable_size` in the pool. -/
def extent (h : FreeListHeap layout rlsf) (ptr : Nat) : Nat :=
  if h.isInSlab ptr then slabSlotSize else rlsf.usableSize h.tlsf ptr

theorem Tracks.extent (tracks : h.Tracks live) (member : b ∈ live) :
    h.extent b.addr = b.usable := by
  rcases tracks.parts with ⟨slabs, split, held⟩
  rcases List.mem_append.mp (split.subset member) with slab | pool
  · rcases held.shape b slab with ⟨⟨i, inside, placed⟩, usable, _, _⟩
    rw [FreeListHeap.extent, placed, h.slot_in_slab inside, if_pos rfl, usable]
  · rw [FreeListHeap.extent, (block_in_heap tracks.sound pool).2.1, if_neg Bool.false_ne_true]
    exact usableSize_block lawful tracks.sound pool

end

/-- The size of the block that `realloc` asks for before it looks at the old one. -/
def speculative (h : FreeListHeap layout rlsf) (size : Nat) : Nat :=
  (h.alloc size).2.extent (h.alloc size).1

/-- How large rlsf's own move in `moveTo` leaves the old block. -/
def movedExtent (h : FreeListHeap layout rlsf) (oldPtr newPtr size : Nat) : Option Nat :=
  let h := (h.free newPtr).ensureInit
  if layout.layoutFits size then
    match rlsf.reallocate h.tlsf h.memory oldPtr size with
    | (some q, tlsf, memory) => some ((h.withTlsf tlsf memory).extent q)
    | (none, _, _) => none
  else none

/-- The same, from the heap that `realloc` is called on. -/
def moved (h : FreeListHeap layout rlsf) (ptr size : Nat) : Option Nat :=
  (h.alloc size).2.movedExtent ptr (h.alloc size).1 size

theorem Tracks.region (tracks : h.Tracks live) (member : b ∈ live) :
    b.addr ≠ nullPtr ∧ (h.isInSlab b.addr = true ∧ b.usable = slabSlotSize ∨
      h.isInSlab b.addr = false ∧ h.isInHeap b.addr = true ∧ b ∈ h.blocks) := by
  rcases tracks.parts with ⟨slabs, split, held⟩
  rcases List.mem_append.mp (split.subset member) with slab | pool
  · rcases held.shape b slab with ⟨⟨i, inside, placed⟩, usable, _, _⟩
    rw [placed]
    exact ⟨slotAddr_ne_null layout i, .inl ⟨h.slot_in_slab inside, usable⟩⟩
  · rcases block_in_heap tracks.sound pool with ⟨nonnull, away, inside⟩
    exact ⟨nonnull, .inr ⟨away, inside, pool⟩⟩

theorem Quiet.tracks (quiet : h.Quiet h') (tracks : h.Tracks live) :
    h'.Tracks live ∧ SameBytes live h.memory h'.memory := by
  rcases tracks.parts with ⟨slabs, split, held⟩
  refine ⟨⟨quiet.sound, slabs, split.trans (quiet.blocks.symm.append_left slabs),
    held.of_bitmap quiet.bitmap⟩, ?_⟩
  exact (held.sameBytes quiet.memory).mono split.subset

theorem copyBytes_inside (memory : Bytes) (source target len i : Nat) (inside : i < len) :
    copyBytes memory source target len (target + i) = memory (source + i) := by
  rw [copyBytes, if_pos (by omega), Nat.add_sub_cancel_left]

theorem copyBytes_outside (memory : Bytes) (source target len a : Nat)
    (away : a < target ∨ target + len ≤ a) : copyBytes memory source target len a = memory a := by
  rw [copyBytes, if_neg (by omega)]

/-- What `realloc` of the live block `b` to a positive size did. -/
inductive Reallocated (h : FreeListHeap layout rlsf) (live rest : List PoolBlock) (b : PoolBlock)
    (size : Nat) : Nat × FreeListHeap layout rlsf → Prop where
  /-- The old block is as it was. -/
  | null (h' : FreeListHeap layout rlsf) (tracks : h'.Tracks live)
      (bytes : SameBytes live h.memory h'.memory) (foreign : h'.foreignFrees = h.foreignFrees) :
      Reallocated h live rest b size (nullPtr, h')
  /-- The old block is gone, and the new one holds its bytes. -/
  | moved (q u : Nat) (h' : FreeListHeap layout rlsf) (taken : q ≠ nullPtr)
      (tracks : h'.Tracks (⟨q, size, u⟩ :: rest)) (bytes : SameBytes rest h.memory h'.memory)
      (copied : ∀ i < min b.request size, h'.memory (q + i) = h.memory (b.addr + i))
      (foreign : h'.foreignFrees = h.foreignFrees) : Reallocated h live rest b size (q, h')

theorem Tracks.withMemory (tracks : h.Tracks live) (memory : Bytes) :
    (h.withTlsf h.tlsf memory).Tracks live := by
  rcases tracks.parts with ⟨slabs, split, held⟩
  exact ⟨⟨tracks.sound.placed, tracks.sound.untaken⟩, slabs, split, held.of_bitmap rfl⟩

theorem Reallocated.after {outcome : Nat × FreeListHeap layout rlsf}
    (done : Reallocated h' live rest b size outcome) (own : live.Perm (b :: rest))
    (large : b.request ≤ b.usable) (bytes : SameBytes live h.memory h'.memory)
    (foreign : h'.foreignFrees = h.foreignFrees) : Reallocated h live rest b size outcome := by
  have fewer : rest ⊆ live := fun _ listed => own.symm.subset (List.mem_cons_of_mem _ listed)
  cases done with
  | null last tracks bytes' foreign' =>
    exact .null last tracks (bytes.trans bytes') (foreign'.trans foreign)
  | moved q u last taken tracks bytes' copied foreign' =>
    refine .moved q u last taken tracks ((bytes.mono fewer).trans bytes') ?_
      (foreign'.trans foreign)
    intro i inside
    rw [copied i inside]
    exact bytes b (own.symm.subset List.mem_cons_self) i (by omega)

theorem realloc_eq (tracks : h.Tracks live) (member : b ∈ live) {p : Nat} (positive : 0 < size)
    (done : h.alloc size = (p, h')) :
    h.realloc b.addr size =
      if p = nullPtr then (nullPtr, h') else h'.moveTo b.addr p size := by
  rcases tracks.region member with ⟨nonnull, inside⟩
  have known : (!h.isInSlab b.addr && !h.isInHeap b.addr) = false := by
    rcases inside with ⟨slab, _⟩ | ⟨_, heap, _⟩
    · rw [slab]
      rfl
    · rw [heap, Bool.not_true, Bool.and_false]
  rw [realloc, if_neg nonnull, if_neg (Nat.ne_of_gt positive), known,
    if_neg Bool.false_ne_true, done]
  cases p with
  | zero => rfl
  | succ p => rfl

section Move

variable (lawful : rlsf.Lawful layout.pool) {h : FreeListHeap layout rlsf}
  {live rest : List PoolBlock} {b fresh : PoolBlock}

include lawful

theorem moveTo_slab (tracks : h.Tracks (fresh :: live)) (own : live.Perm (b :: rest))
    (slab : h.isInSlab b.addr = true) (usable : b.usable = slabSlotSize) :
    ∃ h', h.moveTo b.addr fresh.addr fresh.request = (fresh.addr, h') ∧
      h'.Tracks (fresh :: rest) ∧ SameBytes rest h.memory h'.memory ∧
      (∀ i < min b.request fresh.request, h'.memory (fresh.addr + i) = h.memory (b.addr + i)) ∧
      h'.foreignFrees = h.foreignFrees ∧ h'.peakBytes = h.peakBytes ∧
      (slabSlotSize ≤ h.usedBytes → h.usedBytes < layout.usizeLimit →
        h'.usedBytes = h.usedBytes - slabSlotSize) := by
  have member : b ∈ fresh :: live := List.mem_cons_of_mem _ (own.symm.subset List.mem_cons_self)
  have both : (fresh :: live).Perm (b :: fresh :: rest) :=
    (own.cons fresh).trans (List.Perm.swap _ _ _)
  rcases tracks.block member with ⟨_, held, _⟩
  rcases tracks.block (@List.mem_cons_self _ fresh live) with ⟨_, large, _⟩
  have apart := List.pairwise_cons.mp tracks.apart
  have copySize : (if slabSlotSize < fresh.request then slabSlotSize else fresh.request) =
      min slabSlotSize fresh.request := by
    split
    · omega
    · omega
  have retired := free_tracks lawful (tracks.withMemory
    (copyBytes h.memory b.addr fresh.addr (min slabSlotSize fresh.request))) both
  rw [moveTo, if_pos slab]
  simp only [copySize]
  refine ⟨_, rfl, retired.tracks, ?_, ?_, retired.foreign, retired.peak, ?_⟩
  · intro other listed i inside
    rw [retired.bytes other (List.mem_cons_of_mem _ listed) i inside]
    apply copyBytes_outside
    rcases apart.1 other (own.symm.subset (List.mem_cons_of_mem _ listed)) with low | high
    · omega
    · omega
  · intro i inside
    rw [retired.bytes fresh List.mem_cons_self i (by omega)]
    apply copyBytes_inside
    omega
  · have used := retired.used
    rw [usable] at used
    exact used

theorem moveTo_pool (tracks : h.Tracks (fresh :: live)) (own : live.Perm (b :: rest))
    (away : h.isInSlab b.addr = false) :
    (Reallocated h live rest b fresh.request (h.moveTo b.addr fresh.addr fresh.request)) ∧
      (h.moveTo b.addr fresh.addr fresh.request).2.peakBytes = h.peakBytes ∧
      (fresh.usable ≤ h.usedBytes → h.usedBytes < layout.usizeLimit →
        (h.moveTo b.addr fresh.addr fresh.request).2.usedBytes = h.usedBytes - fresh.usable) ∧
      h.movedExtent b.addr fresh.addr fresh.request =
        if (h.moveTo b.addr fresh.addr fresh.request).1 = nullPtr then none
        else some ((h.moveTo b.addr fresh.addr fresh.request).2.extent
          (h.moveTo b.addr fresh.addr fresh.request).1) := by
  have positive := (tracks.block (@List.mem_cons_self _ fresh live)).2.2
  have retired := free_tracks lawful tracks (.refl (fresh :: live))
  rcases ensureInit_quiet lawful retired.tracks.sound with ⟨quiet, ready⟩
  rcases quiet.tracks retired.tracks with ⟨tracks', bytes⟩
  have kept : SameBytes live h.memory (h.free fresh.addr).ensureInit.memory :=
    retired.bytes.trans bytes
  have foreign := quiet.foreign.trans retired.foreign
  have peak := quiet.peak.trans retired.peak
  have member : b ∈ live := own.symm.subset List.mem_cons_self
  have listed : b ∈ (h.free fresh.addr).ensureInit.blocks := by
    rcases tracks'.region member with ⟨_, ⟨slab, _⟩ | ⟨_, _, pool'⟩⟩
    · have same : (h.free fresh.addr).ensureInit.isInSlab b.addr = h.isInSlab b.addr := rfl
      rw [same, away] at slab
      cases slab
    · exact pool'
  have used : fresh.usable ≤ h.usedBytes → h.usedBytes < layout.usizeLimit →
      (h.free fresh.addr).ensureInit.usedBytes = h.usedBytes - fresh.usable := by
    intro enough below
    exact quiet.used.trans (retired.used enough below)
  rw [moveTo, away, if_neg Bool.false_ne_true, movedExtent]
  dsimp only
  split
  case isFalse => exact ⟨.null _ tracks' kept foreign, peak, used, rfl⟩
  case isTrue =>
    rcases outcome : rlsf.reallocate (h.free fresh.addr).ensureInit.tlsf
      (h.free fresh.addr).ensureInit.memory b.addr fresh.request with ⟨result, tlsf, memory⟩
    rcases reallocate_tracks lawful tracks' ready own listed positive outcome with
      ⟨q, u, rfl, moved, taken, same, copied⟩ | ⟨rfl, same, bytes'⟩
    · refine ⟨.moved q u _ taken moved ?_ ?_ foreign, peak, used, ?_⟩
      · exact (kept.mono (fun _ r => own.symm.subset (List.mem_cons_of_mem _ r))).trans same
      · intro i inside
        change memory (q + i) = _
        rw [copied i inside]
        apply kept b member
        have large := (tracks'.block member).2.1
        omega
      · rw [if_neg taken]
    · exact ⟨.null _ same (kept.trans bytes') foreign, peak, used, rfl⟩

theorem realloc_reallocated (tracks : h.Tracks live) (own : live.Perm (b :: rest)) {size : Nat}
    (positive : 0 < size) : Reallocated h live rest b size (h.realloc b.addr size) := by
  have member : b ∈ live := own.symm.subset List.mem_cons_self
  rcases done : h.alloc size with ⟨p, h'⟩
  rw [realloc_eq tracks member positive done]
  rcases alloc_tracks lawful tracks done with ⟨bytes, foreign, ⟨rfl, tracks', _, _⟩ |
    ⟨taken, u, tracks', _, _⟩⟩
  · exact .null h' tracks' bytes foreign
  · rw [if_neg taken]
    have same : h'.isInSlab b.addr = h.isInSlab b.addr := rfl
    rcases tracks.region member with ⟨_, ⟨slab, usable⟩ | ⟨away, _, _⟩⟩
    · rcases moveTo_slab lawful tracks' own (same.trans slab) usable with
        ⟨last, moved, tracks'', bytes', copied, foreign', _⟩
      dsimp only at moved copied
      rw [moved]
      have done' : Reallocated h' live rest b size (p, last) :=
        .moved p u last taken tracks'' bytes' copied foreign'
      exact done'.after own (tracks.block member).2.1 bytes foreign
    · have moved := (moveTo_pool lawful tracks' own (same.trans away)).1
      exact moved.after own (tracks.block member).2.1 bytes foreign

end Move

end FreeListHeap

end NanoRos
