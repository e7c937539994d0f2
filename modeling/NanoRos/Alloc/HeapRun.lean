import NanoRos.Alloc.LiveBlocks
import NanoRos.Lib.FrontPool
import NanoRos.Lib.Runs

/-! Whole runs of the heap, with a caller that frees and moves the blocks it holds, stores into
them, and sometimes hands over a null pointer or one of another allocator. -/

namespace NanoRos

open FreeListHeap

/-- The heap, and the blocks its caller was given and has not handed back. -/
structure HeapRun (layout : HeapLayout) (rlsf : PoolAllocator) where
  heap : FreeListHeap layout rlsf
  live : List PoolBlock

inductive HeapEvent where
  | alloc (size : Nat)
  | realloc (ptr size : Nat)
  | free (ptr : Nat)
  | store (addr : Nat) (byte : UInt8)

instance (layout : HeapLayout) (ptr : Nat) : Decidable (Foreign layout ptr) :=
  inferInstanceAs (Decidable (_ ∧ _))

namespace HeapRun

variable {layout : HeapLayout} {rlsf : PoolAllocator}

def init (memory : Bytes) : HeapRun layout rlsf := ⟨.new memory, []⟩

def Admissible (s : HeapRun layout rlsf) (ptr : Nat) : Prop :=
  ptr = nullPtr ∨ ptr ∈ s.live.map PoolBlock.addr ∨ Foreign layout ptr

instance (s : HeapRun layout rlsf) (ptr : Nat) : Decidable (s.Admissible ptr) :=
  inferInstanceAs (Decidable (_ ∨ _))

/-- The blocks after `alloc` or `realloc` returned `ptr`. -/
def given (heap : FreeListHeap layout rlsf) (live : List PoolBlock) (ptr size : Nat) :
    List PoolBlock := ⟨ptr, size, heap.extent ptr⟩ :: live

def step (s : HeapRun layout rlsf) : HeapEvent → Option (HeapRun layout rlsf)
  | .alloc size =>
    let (ptr, heap) := s.heap.alloc size
    some ⟨heap, if ptr = nullPtr then s.live else given heap s.live ptr size⟩
  | .realloc ptr size =>
    if s.Admissible ptr then
      let (newPtr, heap) := s.heap.realloc ptr size
      some ⟨heap,
        if size = 0 then without s.live ptr
        else if newPtr = nullPtr then s.live
        else given heap (without s.live ptr) newPtr size⟩
    else none
  | .free ptr =>
    if s.Admissible ptr then some ⟨s.heap.free ptr, without s.live ptr⟩ else none
  | .store addr byte =>
    if ∃ b ∈ s.live, b.addr ≤ addr ∧ addr < b.addr + b.request then
      some ⟨s.heap.withTlsf s.heap.tlsf (Function.update s.heap.memory addr byte), s.live⟩
    else none

variable {h : FreeListHeap layout rlsf} {live : List PoolBlock} {ptr : Nat}
  {s : HeapRun layout rlsf}

theorem foreign_tracks (tracks : h.Tracks live) : h.foreign.Tracks live := by
  rcases tracks.parts with ⟨slabs, split, held⟩
  exact ⟨⟨tracks.sound.placed, tracks.sound.untaken⟩, slabs, split, held.of_bitmap rfl⟩

theorem not_live (tracks : h.Tracks live) (outside : ptr = nullPtr ∨ Foreign layout ptr) :
    ptr ∉ live.map PoolBlock.addr := by
  intro listed
  rcases List.mem_map.mp listed with ⟨b, member, rfl⟩
  rcases tracks.region member with ⟨nonnull, inside⟩
  rcases outside with null | away
  · exact nonnull null
  · rcases away.outside h with ⟨slab, heap⟩
    rcases inside with ⟨slab', _⟩ | ⟨_, heap', _⟩
    · rw [slab] at slab'
      cases slab'
    · rw [heap] at heap'
      cases heap'

theorem foreign_of_admissible (absent : ptr ∉ s.live.map PoolBlock.addr) (nonnull : ptr ≠ nullPtr)
    (allowed : s.Admissible ptr) : Foreign layout ptr := by
  rcases allowed with null | live | away
  · exact absurd null nonnull
  · exact absurd live absent
  · exact away

section

variable (lawful : rlsf.Lawful layout.pool)
include lawful

theorem free_keeps (tracks : s.heap.Tracks s.live) (allowed : s.Admissible ptr) :
    (s.heap.free ptr).Tracks (without s.live ptr) := by
  by_cases listed : ptr ∈ s.live.map PoolBlock.addr
  · rcases List.mem_map.mp listed with ⟨b, member, rfl⟩
    exact (free_tracks lawful tracks (perm_without tracks.distinct member)).tracks
  · rw [without_of_absent listed]
    by_cases null : ptr = nullPtr
    · rw [FreeListHeap.free, if_pos null]
      exact tracks
    · rw [s.heap.free_foreign null (foreign_of_admissible listed null allowed)]
      exact foreign_tracks tracks

theorem alloc_keeps {h' : FreeListHeap layout rlsf} (tracks : h.Tracks live) {size : Nat}
    (done : h.alloc size = (ptr, h')) :
    h'.Tracks (if ptr = nullPtr then live else given h' live ptr size) := by
  rcases alloc_tracks lawful tracks done with ⟨_, _, ⟨rfl, tracks', _, _⟩ |
    ⟨taken, u, tracks', _, _⟩⟩
  · rw [if_pos rfl]
    exact tracks'
  · rw [if_neg taken, given, tracks'.extent lawful List.mem_cons_self]
    exact tracks'

theorem step_tracks (s : HeapRun layout rlsf) (e : HeapEvent) (next : HeapRun layout rlsf)
    (tracks : s.heap.Tracks s.live) (stepped : s.step e = some next) :
    next.heap.Tracks next.live := by
  cases e with
  | alloc size =>
    cases stepped
    exact alloc_keeps lawful tracks rfl
  | realloc ptr size =>
    simp only [step] at stepped
    split at stepped
    case isFalse => cases stepped
    case isTrue allowed =>
      cases stepped
      by_cases zero : size = 0
      · dsimp only
        rw [if_pos zero]
        by_cases null : ptr = nullPtr
        · rw [without_of_absent (not_live tracks (.inl null)), realloc, if_pos null, zero]
          exact tracks
        · rw [realloc, if_neg null, if_pos zero]
          exact free_keeps lawful tracks allowed
      · dsimp only
        rw [if_neg zero]
        by_cases listed : ptr ∈ s.live.map PoolBlock.addr
        · rcases List.mem_map.mp listed with ⟨b, member, rfl⟩
          have done := realloc_reallocated lawful tracks (perm_without tracks.distinct member)
            (Nat.pos_of_ne_zero zero)
          generalize s.heap.realloc b.addr size = outcome at done
          cases done with
          | null h' tracks' bytes foreign => exact tracks'
          | moved q u h' taken tracks' bytes copied foreign =>
            rw [if_neg taken, given, tracks'.extent lawful List.mem_cons_self]
            exact tracks'
        · rw [without_of_absent listed]
          by_cases null : ptr = nullPtr
          · rw [realloc, if_pos null]
            exact alloc_keeps lawful tracks rfl
          · have away := foreign_of_admissible listed null allowed
            rw [s.heap.realloc_foreign null away, if_pos rfl]
            exact foreign_tracks tracks
  | free ptr =>
    simp only [step] at stepped
    split at stepped
    case isFalse => cases stepped
    case isTrue allowed =>
      cases stepped
      exact free_keeps lawful tracks allowed
  | store addr byte =>
    simp only [step] at stepped
    split at stepped
    case isFalse => cases stepped
    case isTrue =>
      cases stepped
      exact tracks.withMemory _

/-- The live blocks by the addresses the heap gave out and the sizes it reports. -/
structure WellPlaced (s : HeapRun layout rlsf) : Prop where
  disjoint : s.live.Pairwise fun a b => a.addr + s.heap.extent a.addr ≤ b.addr ∨
    b.addr + s.heap.extent b.addr ≤ a.addr
  large : ∀ b ∈ s.live, b.request ≤ s.heap.extent b.addr
  aligned : ∀ b ∈ s.live, layout.align ∣ b.addr
  bits : ∀ i < slabSlotCount, s.heap.slot i = true ↔ ∃ b ∈ s.live, b.addr = slotAddr layout i
  slots : ∀ b ∈ s.live, s.heap.isInSlab b.addr = true →
    ∃ i < slabSlotCount, b.addr = slotAddr layout i

/-- What the next `free` or `realloc` does, for every block and every foreign pointer. -/
structure MovesKeepBytes (s : HeapRun layout rlsf) : Prop where
  moved : ∀ b ∈ s.live, ∀ size newPtr heap, 0 < size →
    s.heap.realloc b.addr size = (newPtr, heap) → newPtr ≠ nullPtr →
    s.step (.realloc b.addr size) = some ⟨heap, given heap (without s.live b.addr) newPtr size⟩ ∧
    (HeapRun.mk heap (given heap (without s.live b.addr) newPtr size)).WellPlaced ∧
    (∀ i < min b.request size, heap.memory (newPtr + i) = s.heap.memory (b.addr + i)) ∧
    ∀ b' ∈ without s.live b.addr, ∀ i < s.heap.extent b'.addr,
      heap.memory (b'.addr + i) = s.heap.memory (b'.addr + i)
  refused : ∀ b ∈ s.live, ∀ size heap, 0 < size → s.heap.realloc b.addr size = (nullPtr, heap) →
    s.step (.realloc b.addr size) = some ⟨heap, s.live⟩ ∧ (HeapRun.mk heap s.live).WellPlaced ∧
    ∀ b' ∈ s.live, ∀ i < s.heap.extent b'.addr,
      heap.memory (b'.addr + i) = s.heap.memory (b'.addr + i)
  foreign : ∀ ptr, ptr ≠ nullPtr → Foreign layout ptr →
    s.heap.free ptr = { s.heap with foreignFrees := s.heap.foreignFrees + 1 } ∧
    ∀ size, s.heap.realloc ptr size =
      (nullPtr, { s.heap with foreignFrees := s.heap.foreignFrees + 1 })

theorem wellPlaced_of_tracks (tracks : s.heap.Tracks s.live) :
    s.WellPlaced where
  disjoint := by
    apply List.Pairwise.imp_of_mem _ tracks.apart
    intro a b first second apart
    rw [tracks.extent lawful first, tracks.extent lawful second]
    exact apart
  large := by
    intro b member
    rw [tracks.extent lawful member]
    exact (tracks.block member).2.1
  aligned := fun b member => (tracks.block member).1
  bits := by
    rcases tracks.parts with ⟨slabs, split, held⟩
    intro i inside
    rw [held.bits i inside, List.mem_map]
    constructor
    · rintro ⟨b, slab, placed⟩
      exact ⟨b, split.symm.subset (List.mem_append_left _ slab), placed⟩
    · rintro ⟨b, member, placed⟩
      rcases List.mem_append.mp (split.subset member) with slab | pool
      · exact ⟨b, slab, placed⟩
      · have away := (block_in_heap tracks.sound pool).2.1
        rw [placed, s.heap.slot_in_slab inside] at away
        cases away
  slots := by
    rcases tracks.parts with ⟨slabs, split, held⟩
    intro b member inside
    rcases List.mem_append.mp (split.subset member) with slab | pool
    · exact (held.shape b slab).1
    · rw [(block_in_heap tracks.sound pool).2.1] at inside
      cases inside

theorem movesKeepBytes_of_tracks (tracks : s.heap.Tracks s.live) :
      s.MovesKeepBytes where
  moved := by
    intro b member size newPtr heap positive done taken
    have own := perm_without tracks.distinct member
    have allowed : s.Admissible b.addr := .inr (.inl (List.mem_map_of_mem member))
    have stepped : s.step (.realloc b.addr size) =
        some ⟨heap, given heap (without s.live b.addr) newPtr size⟩ := by
      simp only [step, if_pos allowed, done, if_neg (Nat.ne_of_gt positive), if_neg taken]
    refine ⟨stepped, wellPlaced_of_tracks lawful (step_tracks lawful s _ _ tracks stepped), ?_⟩
    have outcome := realloc_reallocated lawful tracks own positive
    rw [done] at outcome
    cases outcome with
    | null => exact absurd rfl taken
    | moved q u h' _ _ bytes copied _ =>
      refine ⟨copied, ?_⟩
      intro b' listed i inside
      rw [tracks.extent lawful (own.symm.subset (List.mem_cons_of_mem _ listed))] at inside
      exact bytes b' listed i inside
  refused := by
    intro b member size heap positive done
    have own := perm_without tracks.distinct member
    have allowed : s.Admissible b.addr := .inr (.inl (List.mem_map_of_mem member))
    have stepped : s.step (.realloc b.addr size) = some ⟨heap, s.live⟩ := by
      simp only [step, if_pos allowed, done, if_neg (Nat.ne_of_gt positive), if_true]
    refine ⟨stepped, wellPlaced_of_tracks lawful (step_tracks lawful s _ _ tracks stepped), ?_⟩
    have outcome := realloc_reallocated lawful tracks own positive
    rw [done] at outcome
    intro b' listed i inside
    rw [tracks.extent lawful listed] at inside
    cases outcome with
    | null _ _ bytes _ => exact bytes b' listed i inside
    | moved _ _ _ taken => exact absurd rfl taken
  foreign := by
    intro ptr nonnull away
    refine ⟨s.heap.free_foreign nonnull away, ?_⟩
    intro size
    exact s.heap.realloc_foreign nonnull away size

end

theorem live_blocks_disjoint_and_moved (lawful : rlsf.Lawful layout.pool) (memory : Bytes)
    (events : List HeapEvent) (s : HeapRun layout rlsf)
    (reached : run step (init memory) events = some s) : s.WellPlaced ∧ s.MovesKeepBytes := by
  have tracks := @run_invariant _ _ step (fun s : HeapRun layout rlsf => s.heap.Tracks s.live)
    (step_tracks lawful) (init memory) s events (tracks_new lawful memory) reached
  exact ⟨wellPlaced_of_tracks lawful tracks, movesKeepBytes_of_tracks lawful tracks⟩

def smallLayout : HeapLayout where
  wordBytes := 8
  word := .inr rfl
  heapBase := 4096
  heapSize := 4096
  slabBase := 16384
  heapAligned := by decide
  slabAligned := by decide
  heapPositive := by decide
  slabPositive := by decide
  heapEnds := by decide
  slabEnds := by decide
  apart := .inl (by decide)

/-- rlsf's two words of header and granularity of four. -/
def smallPool : PoolAllocator := frontPool smallLayout.pool 16 32

theorem smallPool_lawful : smallPool.Lawful smallLayout.pool :=
  frontPool_lawful smallLayout.pool 16 32 rfl (by decide) (by decide) (by decide)

/-- A block that leaves the slab, shrinks in the pool and keeps its first byte, next to a
pointer of another allocator. -/
theorem live_blocks_after_moves : ∃ s : HeapRun smallLayout smallPool,
    run step (init fun _ => 0) [.alloc 32, .store 16384 7, .realloc 16384 500, .alloc 40,
      .free 5, .realloc 4112 100] = some s ∧
    s.live = [⟨4112, 100, 112⟩, ⟨16384, 40, 64⟩] ∧ s.heap.memory 4112 = 7 ∧
    s.heap.slabUsedBitmap = 1#8 ∧ s.heap.foreignFrees = 1 ∧ s.WellPlaced ∧ s.MovesKeepBytes := by
  have seen : (run step (init fun _ => 0 : HeapRun smallLayout smallPool) [.alloc 32,
      .store 16384 7, .realloc 16384 500, .alloc 40, .free 5, .realloc 4112 100]).map
      (fun s => (s.live, s.heap.memory 4112, s.heap.slabUsedBitmap, s.heap.foreignFrees)) =
      some ([⟨4112, 100, 112⟩, ⟨16384, 40, 64⟩], 7, 1#8, 1) := by
    decide +kernel
  rcases Option.map_eq_some_iff.mp seen with ⟨s, reached, facts⟩
  simp only [Prod.mk.injEq] at facts
  rcases facts with ⟨live, memory, bitmap, foreign⟩
  exact ⟨s, reached, live, memory, bitmap, foreign,
    live_blocks_disjoint_and_moved smallPool_lawful _ _ s reached⟩

end HeapRun

end NanoRos
