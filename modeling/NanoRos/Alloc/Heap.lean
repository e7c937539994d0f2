import Mathlib.Data.BitVec
import NanoRos.Lib.PoolAllocator

/-! The bare-metal heap (`zpico-alloc`): eight slab slots in front of a TLSF pool, with the counters
of its `stats` feature. -/

namespace NanoRos

def slabSlotSize : Nat := 64

def slabSlotCount : Nat := 8

def slabRegionSize : Nat := slabSlotSize * slabSlotCount

/-- Where the two regions of the static lie. Both are `#[repr(align(16))]`. -/
structure HeapLayout where
  /-- `size_of::<usize>()`. -/
  wordBytes : Nat
  word : wordBytes = 4 ∨ wordBytes = 8
  heapBase : Nat
  heapSize : Nat
  slabBase : Nat
  heapAligned : 16 ∣ heapBase
  slabAligned : 16 ∣ slabBase
  heapPositive : 0 < heapBase
  slabPositive : 0 < slabBase
  heapEnds : heapBase + heapSize ≤ 2 ^ (8 * wordBytes)
  slabEnds : slabBase + slabRegionSize ≤ 2 ^ (8 * wordBytes)
  apart : heapBase + heapSize ≤ slabBase ∨ slabBase + slabRegionSize ≤ heapBase

namespace HeapLayout

variable (layout : HeapLayout)

/-- `ALIGN`, half of rlsf's granularity of four words. -/
def align : Nat := 2 * layout.wordBytes

/-- `size_of::<BlockHeader>()`: a size and a pointer. -/
def headerSize : Nat := 2 * layout.wordBytes

def usizeLimit : Nat := 2 ^ (8 * layout.wordBytes)

/-- The arena as rlsf manages it: every block lies behind a header of two words. -/
def pool : Pool where
  base := layout.heapBase
  first := layout.heapBase + layout.headerSize
  stop := layout.heapBase + layout.heapSize
  align := layout.align

/-- `Layout::from_size_align(size, ALIGN).is_ok()`. -/
def layoutFits (size : Nat) : Bool := size ≤ layout.usizeLimit / 2 - 1 - (layout.align - 1)

end HeapLayout

/-- `ptr::null_mut()`. -/
def nullPtr : Nat := 0

/-- `u8::trailing_zeros`. -/
def trailingZeros (b : BitVec 8) : Nat := (List.range 8).findIdx fun i => b.getLsbD i

theorem trailingZeros_spec (b : BitVec 8) (nonzero : b ≠ 0#8) :
    trailingZeros b < 8 ∧ b.getLsbD (trailingZeros b) = true := by
  have found : ∃ i ∈ List.range 8, b.getLsbD i = true := by
    by_contra nothing
    apply nonzero
    apply BitVec.eq_of_getLsbD_eq
    intro i inside
    rw [BitVec.getLsbD_zero]
    apply Bool.eq_false_iff.mpr
    intro set
    exact nothing ⟨i, List.mem_range.mpr inside, set⟩
  have inside := List.findIdx_lt_length_of_exists found
  have set := @List.findIdx_getElem _ _ _ inside
  rw [List.getElem_range] at set
  rw [List.length_range] at inside
  exact ⟨inside, set⟩

theorem getLsbD_oneShift (slot i : Nat) (inside : i < 8) :
    (1#8 <<< slot).getLsbD i = decide (i = slot) := by
  rw [BitVec.getLsbD_shiftLeft]
  rcases Nat.lt_trichotomy i slot with below | same | above
  · simp [below, Nat.ne_of_lt below]
  · subst same
    simp [inside]
  · have positive : i - slot ≠ 0 := by omega
    simp [inside, Nat.not_lt.mpr above.le, BitVec.getLsbD_one, positive, (Nat.ne_of_lt above).symm]

structure FreeListHeap (layout : HeapLayout) (rlsf : PoolAllocator) where
  memory : Bytes
  tlsf : rlsf.State
  initialized : Bool
  poolLen : Nat
  slabUsedBitmap : BitVec 8
  foreignFrees : Nat
  usedBytes : Nat
  peakBytes : Nat
  minRequest : Nat
  maxRequest : Nat

namespace FreeListHeap

variable {layout : HeapLayout} {rlsf : PoolAllocator}

def new (memory : Bytes) : FreeListHeap layout rlsf where
  memory := memory
  tlsf := rlsf.new
  initialized := false
  poolLen := 0
  slabUsedBitmap := 0
  foreignFrees := 0
  usedBytes := 0
  peakBytes := 0
  minRequest := 0
  maxRequest := 0

def withTlsf (h : FreeListHeap layout rlsf) (tlsf : rlsf.State) (memory : Bytes) :
    FreeListHeap layout rlsf :=
  { h with tlsf := tlsf, memory := memory }

def ensureInit (h : FreeListHeap layout rlsf) : FreeListHeap layout rlsf :=
  if h.initialized then h
  else
    let (accepted, tlsf, memory) := rlsf.insertFreeBlock h.tlsf h.memory
    { h.withTlsf tlsf memory with poolLen := accepted, initialized := true }

def isInSlab (_ : FreeListHeap layout rlsf) (addr : Nat) : Bool :=
  layout.slabBase ≤ addr && addr < layout.slabBase + slabRegionSize

def isInHeap (_ : FreeListHeap layout rlsf) (addr : Nat) : Bool :=
  layout.heapBase + layout.headerSize ≤ addr && addr < layout.heapBase + layout.heapSize

/-- `fetch_add` on the bytes in use, and `fetch_max` on the peak. -/
def charge (h : FreeListHeap layout rlsf) (bytes : Nat) : FreeListHeap layout rlsf :=
  let used := (h.usedBytes + bytes) % layout.usizeLimit
  { h with usedBytes := used, peakBytes := max h.peakBytes used }

def slabAlloc (h : FreeListHeap layout rlsf) (size : Nat) : Nat × FreeListHeap layout rlsf :=
  if size > slabSlotSize then (nullPtr, h)
  else if h.slabUsedBitmap = 0xFF#8 then (nullPtr, h)
  else
    let slot := trailingZeros (~~~h.slabUsedBitmap)
    let h : FreeListHeap layout rlsf :=
      { h with slabUsedBitmap := h.slabUsedBitmap ||| (1#8 <<< slot) }
    (layout.slabBase + slot * slabSlotSize, h.charge slabSlotSize)

def slabFree (h : FreeListHeap layout rlsf) (addr : Nat) : FreeListHeap layout rlsf :=
  let slot := (addr - layout.slabBase) / slabSlotSize
  { h with
    slabUsedBitmap := h.slabUsedBitmap &&& ~~~(1#8 <<< slot)
    usedBytes := (h.usedBytes + (layout.usizeLimit - slabSlotSize)) % layout.usizeLimit }

/-- The part of `alloc` behind the slab. -/
def tlsfAlloc (h : FreeListHeap layout rlsf) (size : Nat) : Nat × FreeListHeap layout rlsf :=
  let h := h.ensureInit
  if layout.layoutFits size then
    match rlsf.allocate h.tlsf h.memory size with
    | (some p, tlsf, memory) =>
      let h := (h.withTlsf tlsf memory).charge (rlsf.usableSize tlsf p)
      (p, { h with
        minRequest := max h.minRequest (layout.usizeLimit - 1 - size)
        maxRequest := max h.maxRequest size })
    | (none, tlsf, memory) => (nullPtr, h.withTlsf tlsf memory)
  else (nullPtr, h)

def alloc (h : FreeListHeap layout rlsf) (size : Nat) : Nat × FreeListHeap layout rlsf :=
  if size = 0 then (nullPtr, h)
  else if size ≤ slabSlotSize then
    match h.slabAlloc size with
    | (0, h) => h.tlsfAlloc size
    | (ptr, h) => (ptr, h)
  else h.tlsfAlloc size

/-- A cross-allocator pointer is counted and left alone. -/
def foreign (h : FreeListHeap layout rlsf) : FreeListHeap layout rlsf :=
  { h with foreignFrees := h.foreignFrees + 1 }

def free (h : FreeListHeap layout rlsf) (ptr : Nat) : FreeListHeap layout rlsf :=
  if ptr = nullPtr then h
  else if h.isInSlab ptr then h.slabFree ptr
  else if h.isInHeap ptr then
    let h := h.ensureInit
    let freed := rlsf.usableSize h.tlsf ptr
    let (tlsf, memory) := rlsf.deallocate h.tlsf h.memory ptr
    { h.withTlsf tlsf memory with usedBytes := h.usedBytes - freed }
  else h.foreign

/-- `ptr::copy_nonoverlapping`. -/
def copyBytes (memory : Bytes) (source target len : Nat) : Bytes := fun a =>
  if target ≤ a ∧ a < target + len then memory (source + (a - target)) else memory a

/-- The part of `realloc` behind the speculative allocation: `h` has the block at `newPtr`. -/
def moveTo (h : FreeListHeap layout rlsf) (oldPtr newPtr size : Nat) :
    Nat × FreeListHeap layout rlsf :=
  if h.isInSlab oldPtr then
    let copySize := if slabSlotSize < size then slabSlotSize else size
    let h := h.withTlsf h.tlsf (copyBytes h.memory oldPtr newPtr copySize)
    (newPtr, h.free oldPtr)
  else
    let h := (h.free newPtr).ensureInit
    if layout.layoutFits size then
      match rlsf.reallocate h.tlsf h.memory oldPtr size with
      | (some p, tlsf, memory) => (p, h.withTlsf tlsf memory)
      | (none, tlsf, memory) => (nullPtr, h.withTlsf tlsf memory)
    else (nullPtr, h)

def realloc (h : FreeListHeap layout rlsf) (oldPtr size : Nat) :
    Nat × FreeListHeap layout rlsf :=
  if oldPtr = nullPtr then h.alloc size
  else if size = 0 then (nullPtr, h.free oldPtr)
  else if !h.isInSlab oldPtr && !h.isInHeap oldPtr then (nullPtr, h.foreign)
  else
    match h.alloc size with
    | (0, h) => (nullPtr, h)
    | (newPtr, h) => h.moveTo oldPtr newPtr size

/-- The blocks that rlsf has handed out. -/
def blocks (h : FreeListHeap layout rlsf) : List PoolBlock := rlsf.blocks h.tlsf

def slot (h : FreeListHeap layout rlsf) (i : Nat) : Bool := h.slabUsedBitmap.getLsbD i

/-- What rlsf needs of its state before a call. -/
structure Sound (h : FreeListHeap layout rlsf) : Prop where
  placed : Placed layout.pool h.blocks
  untaken : h.initialized = false → h.tlsf = rlsf.new

/-- Only rlsf's own state and the bytes of no block may differ. -/
structure Quiet (h h' : FreeListHeap layout rlsf) : Prop where
  blocks : h'.blocks.Perm h.blocks
  sound : h'.Sound
  memory : Untouched layout.pool h.blocks h.memory h'.memory
  bitmap : h'.slabUsedBitmap = h.slabUsedBitmap
  foreign : h'.foreignFrees = h.foreignFrees
  used : h'.usedBytes = h.usedBytes
  peak : h'.peakBytes = h.peakBytes

variable {h : FreeListHeap layout rlsf} {ptr : Nat}

theorem Quiet.refl (sound : h.Sound) : h.Quiet h :=
  ⟨.refl _, sound, .refl _, rfl, rfl, rfl, rfl⟩

theorem sound_new (lawful : rlsf.Lawful layout.pool) (memory : Bytes) :
    (new memory : FreeListHeap layout rlsf).Sound where
  placed := by
    have empty : (new memory : FreeListHeap layout rlsf).blocks = [] := lawful.new_blocks
    rw [empty]
    exact Placed.nil
  untaken := fun _ => rfl

theorem block_in_heap (sound : h.Sound) {b : PoolBlock} (member : b ∈ h.blocks) :
    b.addr ≠ nullPtr ∧ h.isInSlab b.addr = false ∧ h.isInHeap b.addr = true := by
  have inside := sound.placed.inside b member
  have large := sound.placed.large b member
  have positive := sound.placed.positive b member
  have apart := layout.apart
  have heapPositive := layout.heapPositive
  simp only [HeapLayout.pool] at inside
  refine ⟨?_, ?_, ?_⟩
  · rw [nullPtr]
    omega
  · rw [isInSlab, Bool.and_eq_false_iff, decide_eq_false_iff_not, decide_eq_false_iff_not]
    omega
  · rw [isInHeap, Bool.and_eq_true, decide_eq_true_iff, decide_eq_true_iff]
    omega

section Operations

variable (lawful : rlsf.Lawful layout.pool) {h : FreeListHeap layout rlsf} (sound : h.Sound)

include lawful sound

theorem ensureInit_quiet : h.Quiet h.ensureInit ∧ h.ensureInit.initialized = true := by
  cases ready : h.initialized with
  | true =>
    rw [ensureInit, if_pos ready]
    exact ⟨.refl sound, ready⟩
  | false =>
    have start := sound.untaken ready
    have none' : h.blocks = [] := by
      rw [blocks, start]
      exact lawful.new_blocks
    rcases lawful.inserted h.memory with ⟨empty, same⟩
    rw [← start] at empty same
    have after : h.ensureInit.blocks = [] := by
      rw [ensureInit, ready]
      exact empty
    refine ⟨⟨?_, ⟨?_, ?_⟩, ?_, ?_, ?_, ?_, ?_⟩, ?_⟩
    · rw [after, none']
    · rw [after]
      exact Placed.nil
    · intro missing
      rw [ensureInit, ready] at missing
      cases missing
    · rw [none', ensureInit, ready]
      exact same
    all_goals
      rw [ensureInit, ready]
      rfl

theorem usableSize_block {b : PoolBlock} (member : b ∈ h.blocks) :
    rlsf.usableSize h.tlsf b.addr = b.usable :=
  lawful.usable h.tlsf sound.placed b member

end Operations

theorem Quiet.trans {first second third : FreeListHeap layout rlsf} (left : first.Quiet second)
    (right : second.Quiet third) : first.Quiet third where
  blocks := right.blocks.trans left.blocks
  sound := right.sound
  memory := left.memory.trans (right.memory.mono left.blocks.symm.subset)
  bitmap := right.bitmap.trans left.bitmap
  foreign := right.foreign.trans left.foreign
  used := right.used.trans left.used
  peak := right.peak.trans left.peak

def slotAddr (layout : HeapLayout) (i : Nat) : Nat := layout.slabBase + i * slabSlotSize

/-- What `alloc` did: nothing, a slot set, or a block of the pool. -/
inductive Allocated (h : FreeListHeap layout rlsf) (size : Nat) :
    Nat × FreeListHeap layout rlsf → Prop where
  | null (h' : FreeListHeap layout rlsf) (quiet : h.Quiet h') : Allocated h size (nullPtr, h')
  | slab (i : Nat) (inside : i < slabSlotCount) (clear : h.slot i = false)
      (positive : 0 < size) (small : size ≤ slabSlotSize) :
      Allocated h size (slotAddr layout i,
        { h with slabUsedBitmap := h.slabUsedBitmap ||| (1#8 <<< i) }.charge slabSlotSize)
  | tlsf (p u : Nat) (h' : FreeListHeap layout rlsf) (positive : 0 < size)
      (blocks : h'.blocks.Perm (⟨p, size, u⟩ :: h.blocks)) (sound : h'.Sound)
      (memory : Untouched layout.pool h.blocks h.memory h'.memory)
      (bitmap : h'.slabUsedBitmap = h.slabUsedBitmap) (foreign : h'.foreignFrees = h.foreignFrees)
      (used : h'.usedBytes = (h.usedBytes + u) % layout.usizeLimit)
      (peak : h'.peakBytes = max h.peakBytes ((h.usedBytes + u) % layout.usizeLimit)) :
      Allocated h size (p, h')

theorem slabAlloc_cases (h : FreeListHeap layout rlsf) (size : Nat) (small : size ≤ slabSlotSize) :
    h.slabAlloc size = (nullPtr, h) ∨
      ∃ i < slabSlotCount, h.slot i = false ∧ h.slabAlloc size = (slotAddr layout i,
        { h with slabUsedBitmap := h.slabUsedBitmap ||| (1#8 <<< i) }.charge slabSlotSize) := by
  rw [slabAlloc, if_neg (Nat.not_lt.mpr small)]
  by_cases full : h.slabUsedBitmap = 0xFF#8
  · rw [if_pos full]
    exact .inl rfl
  · have nonzero : ~~~h.slabUsedBitmap ≠ 0#8 := by
      intro zero
      apply full
      have back := congrArg (fun b => ~~~b) zero
      rw [BitVec.not_not] at back
      exact back
    rcases trailingZeros_spec _ nonzero with ⟨inside, set⟩
    rw [BitVec.getLsbD_not, Bool.and_eq_true, Bool.not_eq_true'] at set
    rw [if_neg full]
    exact .inr ⟨_, inside, set.2, rfl⟩

theorem tlsfAlloc_allocated (lawful : rlsf.Lawful layout.pool) (sound : h.Sound) (size : Nat)
    (positive : 0 < size) :
    Allocated h size (h.tlsfAlloc size) := by
  rcases ensureInit_quiet lawful sound with ⟨quiet, ready⟩
  rw [tlsfAlloc]
  split
  case isFalse => exact .null _ quiet
  case isTrue =>
    rcases outcome : rlsf.allocate h.ensureInit.tlsf h.ensureInit.memory size with
      ⟨_ | p, tlsf, memory⟩
    · rcases lawful.refused _ _ _ _ _ quiet.sound.placed outcome with ⟨same, untouched⟩
      refine .null _ (quiet.trans ⟨same, ⟨?_, ?_⟩, untouched, rfl, rfl, rfl, rfl⟩)
      · exact quiet.sound.placed.perm same.symm
      · intro missing
        rw [withTlsf, ready] at missing
        cases missing
    · rcases lawful.allocated _ _ _ _ _ _ quiet.sound.placed positive outcome with
        ⟨u, grown, placed, untouched⟩
      have usable : rlsf.usableSize tlsf p = u :=
        lawful.usable tlsf placed ⟨p, size, u⟩ (grown.symm.subset List.mem_cons_self)
      refine .tlsf p u _ positive (grown.trans (quiet.blocks.cons _)) ⟨placed, ?_⟩
        (quiet.memory.trans (untouched.mono quiet.blocks.symm.subset)) quiet.bitmap
        quiet.foreign ?_ ?_
      · intro missing
        change h.ensureInit.initialized = false at missing
        rw [ready] at missing
        cases missing
      · change (h.ensureInit.usedBytes + rlsf.usableSize tlsf p) % _ = _
        rw [usable, quiet.used]
      · change max h.ensureInit.peakBytes
          ((h.ensureInit.usedBytes + rlsf.usableSize tlsf p) % _) = _
        rw [usable, quiet.used, quiet.peak]

theorem slotAddr_ne_null (layout : HeapLayout) (i : Nat) : slotAddr layout i ≠ nullPtr := by
  have positive := layout.slabPositive
  rw [slotAddr, nullPtr]
  omega

theorem alloc_allocated (lawful : rlsf.Lawful layout.pool) (sound : h.Sound) (size : Nat) :
    Allocated h size (h.alloc size) := by
  rw [alloc]
  split
  case isTrue => exact .null h (.refl sound)
  case isFalse nonzero =>
    have positive := Nat.pos_of_ne_zero nonzero
    split
    case isTrue small =>
      rcases h.slabAlloc_cases size small with refused | ⟨i, inside, clear, taken⟩
      · rw [refused]
        exact tlsfAlloc_allocated lawful sound size positive
      · rw [taken]
        split
        case h_1 h' same =>
          exact absurd (congrArg Prod.fst same) (slotAddr_ne_null layout i)
        case h_2 ptr h' _ same =>
          rw [← same]
          exact .slab i inside clear positive small
    case isFalse => exact tlsfAlloc_allocated lawful sound size positive

variable (h)

theorem slot_in_slab {i : Nat} (inside : i < slabSlotCount) :
    h.isInSlab (slotAddr layout i) = true := by
  rw [isInSlab, Bool.and_eq_true, decide_eq_true_iff, decide_eq_true_iff]
  simp only [slotAddr, slabRegionSize, slabSlotSize, slabSlotCount] at inside ⊢
  omega

theorem free_slot {i : Nat} (inside : i < slabSlotCount) :
    h.free (slotAddr layout i) = { h with
      slabUsedBitmap := h.slabUsedBitmap &&& ~~~(1#8 <<< i)
      usedBytes := (h.usedBytes + (layout.usizeLimit - slabSlotSize)) % layout.usizeLimit } := by
  have slot : (slotAddr layout i - layout.slabBase) / slabSlotSize = i := by
    rw [slotAddr, Nat.add_sub_cancel_left, Nat.mul_div_cancel _ (by decide)]
  rw [free, if_neg (slotAddr_ne_null layout i), if_pos (h.slot_in_slab inside), slabFree]
  simp only [slot]

variable {h}

/-- What `free` of a block of the pool did. -/
structure Freed (h h' : FreeListHeap layout rlsf) (b : PoolBlock) : Prop where
  blocks : h.blocks.Perm (b :: h'.blocks)
  sound : h'.Sound
  memory : Untouched layout.pool h'.blocks h.memory h'.memory
  bitmap : h'.slabUsedBitmap = h.slabUsedBitmap
  foreign : h'.foreignFrees = h.foreignFrees
  used : h'.usedBytes = h.usedBytes - b.usable
  peak : h'.peakBytes = h.peakBytes

theorem free_block (lawful : rlsf.Lawful layout.pool) (sound : h.Sound) {b : PoolBlock}
    (member : b ∈ h.blocks) : h.Freed (h.free b.addr) b := by
  rcases block_in_heap sound member with ⟨nonnull, away, inside⟩
  rcases ensureInit_quiet lawful sound with ⟨quiet, ready⟩
  have there : b ∈ h.ensureInit.blocks := quiet.blocks.symm.subset member
  have usable := usableSize_block lawful quiet.sound there
  rcases outcome : rlsf.deallocate h.ensureInit.tlsf h.ensureInit.memory b.addr with
    ⟨tlsf, memory⟩
  rcases lawful.deallocated _ _ b _ _ quiet.sound.placed there outcome with ⟨split, untouched⟩
  rw [free, if_neg nonnull, away, if_neg Bool.false_ne_true, if_pos inside]
  simp only [outcome, usable]
  have parts : h.blocks.Perm (b :: rlsf.blocks tlsf) := quiet.blocks.symm.trans split
  refine ⟨parts, ⟨?_, ?_⟩, ?_, quiet.bitmap, quiet.foreign, ?_, quiet.peak⟩
  · exact (sound.placed.perm parts).tail
  · intro missing
    change h.ensureInit.initialized = false at missing
    rw [ready] at missing
    cases missing
  · have kept : rlsf.blocks tlsf ⊆ h.blocks := by
      intro b' listed
      exact parts.symm.subset (List.mem_cons_of_mem b listed)
    exact (quiet.memory.mono kept).trans untouched
  · change h.ensureInit.usedBytes - b.usable = _
    rw [quiet.used]

/-- A pointer outside both regions. -/
def Foreign (layout : HeapLayout) (ptr : Nat) : Prop :=
  ¬ (layout.slabBase ≤ ptr ∧ ptr < layout.slabBase + slabRegionSize) ∧
    ¬ (layout.heapBase + layout.headerSize ≤ ptr ∧ ptr < layout.heapBase + layout.heapSize)

theorem Foreign.outside (away : Foreign layout ptr) (h : FreeListHeap layout rlsf) :
    h.isInSlab ptr = false ∧ h.isInHeap ptr = false := by
  constructor
  · apply Bool.eq_false_iff.mpr
    intro inside
    rw [isInSlab, Bool.and_eq_true, decide_eq_true_iff, decide_eq_true_iff] at inside
    exact away.1 inside
  · apply Bool.eq_false_iff.mpr
    intro inside
    rw [isInHeap, Bool.and_eq_true, decide_eq_true_iff, decide_eq_true_iff] at inside
    exact away.2 inside

variable (h)

theorem free_foreign (nonnull : ptr ≠ nullPtr) (away : Foreign layout ptr)
    : h.free ptr = h.foreign := by
  rcases away.outside h with ⟨slab, heap⟩
  rw [free, if_neg nonnull, slab, if_neg Bool.false_ne_true, heap, if_neg Bool.false_ne_true]

theorem realloc_foreign (nonnull : ptr ≠ nullPtr) (away : Foreign layout ptr) (size : Nat)
    : h.realloc ptr size = (nullPtr, h.foreign) := by
  rcases away.outside h with ⟨slab, heap⟩
  rw [realloc, if_neg nonnull]
  split
  · rw [h.free_foreign nonnull away]
  · rw [slab, heap]
    rfl

variable {h}

end FreeListHeap

end NanoRos
