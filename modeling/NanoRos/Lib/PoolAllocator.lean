import Mathlib.Data.List.Pairwise
import Mathlib.Data.List.Perm.Basic
import Mathlib.Tactic

/-! What the user of an allocator over one pool of memory may rely on: the blocks it has handed out
and not taken back, where they lie, and which bytes an operation leaves alone. -/

namespace NanoRos

abbrev Bytes := Nat → UInt8

/-- Memory from `base` to `stop`; blocks start at `first` or above. -/
structure Pool where
  base : Nat
  first : Nat
  stop : Nat
  align : Nat

structure PoolBlock where
  addr : Nat
  request : Nat
  usable : Nat
  deriving DecidableEq, Repr

namespace PoolBlock

def Apart (a b : PoolBlock) : Prop := a.addr + a.usable ≤ b.addr ∨ b.addr + b.usable ≤ a.addr

theorem Apart.symm {a b : PoolBlock} (apart : a.Apart b) : b.Apart a := Or.symm apart

end PoolBlock

/-- Disjoint blocks inside the pool, each large enough for its request. -/
structure Placed (pool : Pool) (blocks : List PoolBlock) : Prop where
  apart : blocks.Pairwise PoolBlock.Apart
  inside : ∀ b ∈ blocks, pool.first ≤ b.addr ∧ b.addr + b.usable ≤ pool.stop
  aligned : ∀ b ∈ blocks, pool.align ∣ b.addr
  large : ∀ b ∈ blocks, b.request ≤ b.usable
  positive : ∀ b ∈ blocks, 0 < b.request

namespace Placed

variable {pool : Pool} {blocks blocks' : List PoolBlock}

theorem nil : Placed pool [] where
  apart := List.Pairwise.nil
  inside := by simp
  aligned := by simp
  large := by simp
  positive := by simp

theorem perm (placed : Placed pool blocks) (same : blocks.Perm blocks') : Placed pool blocks' where
  apart := (same.pairwise_iff PoolBlock.Apart.symm).mp placed.apart
  inside := fun b member => placed.inside b (same.symm.subset member)
  aligned := fun b member => placed.aligned b (same.symm.subset member)
  large := fun b member => placed.large b (same.symm.subset member)
  positive := fun b member => placed.positive b (same.symm.subset member)

theorem tail {b : PoolBlock} (placed : Placed pool (b :: blocks)) : Placed pool blocks where
  apart := (List.pairwise_cons.mp placed.apart).2
  inside := fun b' member => placed.inside b' (List.mem_cons_of_mem b member)
  aligned := fun b' member => placed.aligned b' (List.mem_cons_of_mem b member)
  large := fun b' member => placed.large b' (List.mem_cons_of_mem b member)
  positive := fun b' member => placed.positive b' (List.mem_cons_of_mem b member)

theorem cons {b : PoolBlock} (placed : Placed pool blocks) (apart : ∀ b' ∈ blocks, b.Apart b')
    (inside : pool.first ≤ b.addr ∧ b.addr + b.usable ≤ pool.stop) (aligned : pool.align ∣ b.addr)
    (large : b.request ≤ b.usable) (positive : 0 < b.request) : Placed pool (b :: blocks) where
  apart := List.pairwise_cons.mpr ⟨apart, placed.apart⟩
  inside := List.forall_mem_cons.mpr ⟨inside, placed.inside⟩
  aligned := List.forall_mem_cons.mpr ⟨aligned, placed.aligned⟩
  large := List.forall_mem_cons.mpr ⟨large, placed.large⟩
  positive := List.forall_mem_cons.mpr ⟨positive, placed.positive⟩

theorem addr_nodup (placed : Placed pool blocks) : (blocks.map PoolBlock.addr).Nodup := by
  rw [List.Nodup, List.pairwise_map]
  apply List.Pairwise.imp_of_mem _ placed.apart
  intro a b first second apart same
  have largeA := placed.large a first
  have largeB := placed.large b second
  have someA := placed.positive a first
  have someB := placed.positive b second
  rcases apart with before | behind
  · omega
  · omega

end Placed

theorem sum_usable_le {blocks : List PoolBlock} {low high : Nat}
    (apart : blocks.Pairwise PoolBlock.Apart)
    (inside : ∀ b ∈ blocks, low ≤ b.addr ∧ b.addr + b.usable ≤ high) :
    (blocks.map PoolBlock.usable).sum ≤ high - low := by
  have distinct : (blocks.flatMap fun b => List.range' b.addr b.usable).Nodup := by
    rw [List.nodup_flatMap]
    refine ⟨fun b _ => List.nodup_range', apart.imp ?_⟩
    intro a b away address first second
    rw [List.mem_range'_1] at first second
    rcases away with before | behind
    · omega
    · omega
  have within : (blocks.flatMap fun b => List.range' b.addr b.usable) ⊆
      List.range' low (high - low) := by
    intro address listed
    rcases List.mem_flatMap.mp listed with ⟨b, member, here⟩
    have bounds := inside b member
    rw [List.mem_range'_1] at here ⊢
    omega
  have fits := (List.subperm_of_subset distinct within).length_le
  rw [List.length_flatMap, List.length_range'] at fits
  simpa only [List.length_range'] using fits

/-- The blocks left when the one at an address is retired. -/
def without (live : List PoolBlock) (ptr : Nat) : List PoolBlock :=
  live.filter fun b => b.addr ≠ ptr

theorem without_of_absent {live : List PoolBlock} {ptr : Nat}
    (absent : ptr ∉ live.map PoolBlock.addr) : without live ptr = live := by
  rw [without, List.filter_eq_self]
  intro b member
  rw [decide_eq_true_iff]
  rintro rfl
  exact absent (List.mem_map_of_mem member)

theorem perm_without {live : List PoolBlock} {b : PoolBlock}
    (distinct : (live.map PoolBlock.addr).Nodup) (member : b ∈ live) :
    live.Perm (b :: without live b.addr) := by
  induction live with
  | nil => cases member
  | cons a live ih =>
    rw [List.map_cons, List.nodup_cons] at distinct
    rcases List.mem_cons.mp member with rfl | later
    · rw [without, List.filter_cons_of_neg (by simp), ← without,
        without_of_absent distinct.1]
    · have other : a.addr ≠ b.addr := by
        intro same
        rw [same] at distinct
        exact distinct.1 (List.mem_map_of_mem later)
      rw [without, List.filter_cons_of_pos (by simp [other]), ← without]
      exact ((ih distinct.2 later).cons a).trans (List.Perm.swap _ _ _)

/-- Outside the pool and inside the blocks nothing changed. -/
structure Untouched (pool : Pool) (blocks : List PoolBlock) (before after : Bytes) : Prop where
  outside : ∀ a, a < pool.base ∨ pool.stop ≤ a → after a = before a
  blocks : ∀ b ∈ blocks, ∀ i < b.usable, after (b.addr + i) = before (b.addr + i)

namespace Untouched

variable {pool : Pool} {blocks blocks' : List PoolBlock} {first second third : Bytes}

theorem refl (m : Bytes) : Untouched pool blocks m m := ⟨fun _ _ => rfl, fun _ _ _ _ => rfl⟩

theorem mono (same : Untouched pool blocks first second) (fewer : blocks' ⊆ blocks) :
    Untouched pool blocks' first second :=
  ⟨same.outside, fun b member => same.blocks b (fewer member)⟩

theorem trans (left : Untouched pool blocks first second)
    (right : Untouched pool blocks second third) : Untouched pool blocks first third where
  outside := fun a away => (right.outside a away).trans (left.outside a away)
  blocks := fun b member i inside =>
    (right.blocks b member i inside).trans (left.blocks b member i inside)

end Untouched

/-- An allocator's operations. `blocks` is not one of them: it tells which blocks are out. -/
structure PoolAllocator where
  State : Type
  new : State
  insertFreeBlock : State → Bytes → Nat × State × Bytes
  allocate : State → Bytes → Nat → Option Nat × State × Bytes
  deallocate : State → Bytes → Nat → State × Bytes
  reallocate : State → Bytes → Nat → Nat → Option Nat × State × Bytes
  usableSize : State → Nat → Nat
  blocks : State → List PoolBlock

/-- The contract: fresh blocks are disjoint from all others, a block keeps its usable size while
it is out, and a failed reallocation keeps the old block. -/
structure PoolAllocator.Lawful (A : PoolAllocator) (pool : Pool) : Prop where
  new_blocks : A.blocks A.new = []
  inserted : ∀ m, A.blocks (A.insertFreeBlock A.new m).2.1 = [] ∧
    Untouched pool [] m (A.insertFreeBlock A.new m).2.2
  usable : ∀ s, Placed pool (A.blocks s) → ∀ b ∈ A.blocks s, A.usableSize s b.addr = b.usable
  allocated : ∀ s m size p s' m', Placed pool (A.blocks s) → 0 < size →
    A.allocate s m size = (some p, s', m') →
    ∃ u, (A.blocks s').Perm (⟨p, size, u⟩ :: A.blocks s) ∧ Placed pool (A.blocks s') ∧
      Untouched pool (A.blocks s) m m'
  refused : ∀ s m size s' m', Placed pool (A.blocks s) → A.allocate s m size = (none, s', m') →
    (A.blocks s').Perm (A.blocks s) ∧ Untouched pool (A.blocks s) m m'
  deallocated : ∀ s m b s' m', Placed pool (A.blocks s) → b ∈ A.blocks s →
    A.deallocate s m b.addr = (s', m') →
    (A.blocks s).Perm (b :: A.blocks s') ∧ Untouched pool (A.blocks s') m m'
  reallocated : ∀ s m b size q s' m', Placed pool (A.blocks s) → b ∈ A.blocks s → 0 < size →
    A.reallocate s m b.addr size = (some q, s', m') →
    ∃ others u, (A.blocks s).Perm (b :: others) ∧ (A.blocks s').Perm (⟨q, size, u⟩ :: others) ∧
      Placed pool (A.blocks s') ∧ Untouched pool others m m' ∧
      ∀ i < min b.request size, m' (q + i) = m (b.addr + i)
  preserved : ∀ s m b size s' m', Placed pool (A.blocks s) → b ∈ A.blocks s →
    A.reallocate s m b.addr size = (none, s', m') →
    (A.blocks s').Perm (A.blocks s) ∧ Untouched pool (A.blocks s) m m'

end NanoRos
